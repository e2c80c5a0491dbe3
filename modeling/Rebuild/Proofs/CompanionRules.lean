import Rebuild.Proofs.CompanionEdits
import Rebuild.Proofs.SingleFiles

namespace Rebuild.Proofs.CompanionRules

open Rebuild.FileTree
open Rebuild.Proofs.PathNormal
open Rebuild.Proofs.Lookup
open Rebuild.Proofs.Growth
open Rebuild.Proofs.Steps
open Rebuild.Proofs.Writes
open Rebuild.Proofs.Layout
open Rebuild.Proofs.FileNames
open Rebuild.Proofs.Runs
open Rebuild.Proofs.Contents
open Rebuild.Proofs.CompanionCopies
open Rebuild.Proofs.CompanionEdits
open Rebuild.Proofs.SingleFiles
open Rebuild.Proofs.WholeWrites

/-- The companions a module may have: those beside its source, if a file backs it. -/
def companionsOf (config : Config) :
    Option Path → Except Path.NameFault (OrderedMap Extension Path)
  | none => .ok ∅
  | some source => companions source config

/-- What the companion with an extension holds, if it is a file. -/
def companionContent? (t : FileTree) (found : OrderedMap Extension Path) (ext : Extension) :
    Option ByteArray :=
  match found.get? ext with
  | none => none
  | some q => (t.read q).toOption

theorem companionContent?_eq_some_iff {t : FileTree} {found : OrderedMap Extension Path}
    {ext : Extension} {content : ByteArray} :
    companionContent? t found ext = some content ↔
      ∃ source, found.get? ext = some source ∧ t.read source = .ok content := by
  unfold companionContent?
  cases found.get? ext with
  | none => simp
  | some source => cases hread : t.read source <;> simp [hread, Except.toOption]

/-- The header companion is copied; where there is none, an empty file stands in for a header
that is needed. -/
def headerContent? (t : FileTree) (found : OrderedMap Extension Path) (needsForeign : Bool)
    (config : Config) : Option ByteArray :=
  match companionContent? t found config.headerExt with
  | some content => some content
  | none => if needsForeign then some .empty else none

/-- A further companion is copied if its destination takes a file. -/
def furtherContent? (t : FileTree) (found : OrderedMap Extension Path)
    (target : Extension × Path) : Option ByteArray :=
  if canTake t target.2 then companionContent? t found target.1 else none

/-- Each destination of a foreign companion, in the order of writing, with what is to be
written there; a destination with nothing to write stays as it is. -/
def companionRules (t : FileTree) (found : OrderedMap Extension Path) (needsForeign : Bool)
    (a : Artifacts) (config : Config) : List (Path × Option ByteArray) :=
  (a.foreignHeader, headerContent? t found needsForeign config) ::
    (a.foreignImplementation, companionContent? t found config.implExt) ::
    a.foreignOthers.toList.map fun target => (target.2, furtherContent? t found target)

theorem map_companionRules (t : FileTree) (found : OrderedMap Extension Path)
    (needsForeign : Bool) (a : Artifacts) (config : Config) :
    (companionRules t found needsForeign a config).map (·.1) = foreignPaths a := by
  simp [companionRules, foreignPaths, OrderedMap.values]

theorem header_mem_companionRules (t : FileTree) (found : OrderedMap Extension Path)
    (needsForeign : Bool) (a : Artifacts) (config : Config) :
    (a.foreignHeader, headerContent? t found needsForeign config) ∈
      companionRules t found needsForeign a config :=
  List.mem_cons_self

theorem implementation_mem_companionRules (t : FileTree) (found : OrderedMap Extension Path)
    (needsForeign : Bool) (a : Artifacts) (config : Config) :
    (a.foreignImplementation, companionContent? t found config.implExt) ∈
      companionRules t found needsForeign a config :=
  List.mem_cons_of_mem _ List.mem_cons_self

def filesOf (rules : List (Path × Option ByteArray)) : List (Path × ByteArray) :=
  rules.filterMap fun rule => rule.2.map fun content => (rule.1, content)

theorem mem_filesOf_iff {rules : List (Path × Option ByteArray)} {file : Path × ByteArray} :
    file ∈ filesOf rules ↔ (file.1, some file.2) ∈ rules := by
  simp only [filesOf, List.mem_filterMap, Option.map_eq_some_iff]
  constructor
  · rintro ⟨⟨q, _⟩, hrule, content, rfl, rfl⟩
    exact hrule
  · exact fun hrule => ⟨_, hrule, file.2, rfl, rfl⟩

theorem filesOf_append (rules more : List (Path × Option ByteArray)) :
    filesOf (rules ++ more) = filesOf rules ++ filesOf more :=
  List.filterMap_append

/-- From the first workspace to the second, contents were written to files of the directory
and no other file changed. -/
structure Wrote (d : Path) (files : List (Path × ByteArray)) (w w' : Workspace) : Prop where
  now : w'.now = w.now
  tried : TriedIn d w.files w'.files
  grows : Evolves w.now (fun _ => True) (Ends w.files.current (files.map (·.1)))
    w.files w'.files
  holds : ∀ file ∈ files, w'.files.read file.1 = .ok file.2

section

variable {d q r : Path} {content : ByteArray} {files more : List (Path × ByteArray)}
variable {w u w' : Workspace}

theorem Wrote.refl (d : Path) (w : Workspace) : Wrote d [] w w :=
  ⟨rfl, TriedIn.refl d w.files, Evolves.refl w.files, by simp⟩

theorem Wrote.trans (h : Wrote d files w u) (h' : Wrote d more u w')
    (hapart : ∀ f ∈ files, ∀ g ∈ more,
      endOf w.files.current f.1 ≠ endOf w.files.current g.1) :
    Wrote d (files ++ more) w w' := by
  have hcurrent := h.grows.current
  have hlater := h'.grows
  rw [hcurrent, h.now] at hlater
  refine ⟨h'.now.trans h.now, h.tried.trans h'.tried, ?_, ?_⟩
  · refine (h.grows.mono (fun _ hl => hl) ?_).trans (hlater.mono (fun _ hl => hl) ?_)
    · rintro _ ⟨q, hq, rfl⟩
      exact ⟨q, by simp_all, rfl⟩
    · rintro _ ⟨q, hq, rfl⟩
      exact ⟨q, by simp_all, rfl⟩
  · intro file hfile
    rcases List.mem_append.mp hfile with hfile | hfile
    · refine read_of_evolves hlater ?_ (h.holds file hfile)
      rintro ⟨_, hq, hend⟩
      obtain ⟨g, hg, rfl⟩ := List.mem_map.mp hq
      exact hapart file hfile g hg (hcurrent ▸ hend)
    · exact h'.holds file hfile

theorem wrote_of_writeBytes (hq : q.normalize.parent = d.normalize)
    (h : writeBytes q content w = .ok r w') : Wrote d [(q, content)] w w' := by
  have hmoves := (within_writeBytes content (admits_endOf w.files.current q)).of_ok rfl h
  have htried : TriedIn d w.files (after (writeBytes q content) w).files := triedIn_of_writeBytes hq
  rw [after_of_ok h] at htried
  refine ⟨hmoves.now, htried, hmoves.files.mono (fun _ _ => trivial) ?_, ?_⟩
  · exact fun l hl => ⟨q, by simp, hl⟩
  · intro file hfile
    rw [List.mem_singleton.mp hfile]
    exact read_of_writeBytes h

theorem wrote_of_refused {e : BuildError} (hq : q.normalize.parent = d.normalize)
    (h : writeBytes q content w = .error e w') : Wrote d [] w w' := by
  have htried : TriedIn d w.files (after (writeBytes q content) w).files := triedIn_of_writeBytes hq
  rw [after_of_error h] at htried
  have hmoves := moves_of_writeBytes_error h
  exact ⟨hmoves.now, htried, hmoves.files.mono (fun _ _ => trivial) fun _ hl => hl.elim, by simp⟩

end

section

variable {d source target : Path} {found : OrderedMap Extension Path} {ext : Extension}
variable {content : ByteArray} {w w' : Workspace} {written : List Path}
variable {a : Artifacts} {config : Config} {needsForeign : Bool}

/-- What a step wrote is what a rule says. -/
def Obeys (d : Path) (rule : Path × Option ByteArray) (written : List Path)
    (w w' : Workspace) : Prop :=
  written = (filesOf [rule]).map (·.1.normalize) ∧ Wrote d (filesOf [rule]) w w'

theorem obeys_nothing (d q : Path) (w : Workspace) : Obeys d (q, none) [] w w :=
  ⟨rfl, Wrote.refl d w⟩

theorem obeys_of_writeBytes {q : Path} (hq : q.normalize.parent = d.normalize)
    (h : (writeBytes q content >>= fun r => pure [r] : BuildM (List Path)) w = .ok written w') :
    Obeys d (q, some content) written w w' := by
  obtain ⟨r, u, hwrite, hpure⟩ := bind_eq_ok_iff.mp h
  cases hpure
  obtain ⟨_, _, _, rfl⟩ := writeBytes_eq_ok_iff.mp hwrite
  exact ⟨rfl, wrote_of_writeBytes hq hwrite⟩

theorem read_of_isFile {t : FileTree} (h : t.isFile source = .ok true) :
    ∃ content, t.read source = .ok content := by
  unfold FileTree.isFile at h
  cases hprobe : t.probe source with
  | error fault => simp [hprobe] at h
  | ok e? =>
      rcases e? with _ | _ | ⟨content, modified⟩
      · simp [hprobe] at h
      · simp [hprobe, Entry.isFile] at h
      · obtain ⟨l, hl, hfile⟩ := probe_eq_some_iff.mp hprobe
        exact ⟨content, read_eq_ok_iff.mpr ⟨l, modified, hl, hfile⟩⟩

theorem obeys_of_copyFile (hq : target.normalize.parent = d.normalize)
    (hread : w.files.read source = .ok content)
    (hapart : endOf w.files.current source ≠ endOf w.files.current target)
    (h : (copyFile source target >>= fun r => pure [r] : BuildM (List Path)) w = .ok written w') :
    Obeys d (target, some content) written w w' := by
  obtain ⟨r, v, hcopy, hpure⟩ := bind_eq_ok_iff.mp h
  rw [copyFile_eq_writeBytes hread hapart] at hcopy
  exact obeys_of_writeBytes hq (bind_eq_ok_iff.mpr ⟨r, v, hcopy, hpure⟩)

theorem presentCompanion_eq_ok {source? : Option Path}
    (h : presentCompanion found ext w = .ok source? w') :
    w' = w ∧ ((source? = none ∧ companionContent? w.files found ext = none) ∨
      ∃ source content, source? = some source ∧ source ∈ found.values ∧
        w.files.read source = .ok content ∧
        companionContent? w.files found ext = some content) := by
  unfold presentCompanion at h
  cases hget : found.get? ext with
  | none =>
      rw [hget] at h
      cases h
      exact ⟨rfl, .inl ⟨rfl, by simp [companionContent?, hget]⟩⟩
  | some q =>
      rw [hget] at h
      simp only at h
      rw [bind_of_ok (get_apply w)] at h
      obtain ⟨present, u, hpresent, h⟩ := bind_eq_ok_iff.mp h
      obtain ⟨hfile, rfl⟩ := lift_eq_ok_iff.mp hpresent
      cases present with
      | true =>
          cases h
          obtain ⟨content, hread⟩ := read_of_isFile hfile
          exact ⟨rfl, .inr ⟨q, content, rfl, OrderedMap.mem_values_of_get? hget, hread,
            companionContent?_eq_some_iff.mpr ⟨q, hget, hread⟩⟩⟩
      | false =>
          cases h
          refine ⟨rfl, .inl ⟨rfl, ?_⟩⟩
          unfold companionContent?
          rw [hget]
          cases hread : w'.files.read q with
          | error fault => simp [hread, Except.toOption]
          | ok content => simp [isFile_of_read hread] at hfile

theorem obeys_of_writeForeignHeader (hq : a.foreignHeader.normalize.parent = d.normalize)
    (hapart : ∀ c ∈ found.values,
      endOf w.files.current c ≠ endOf w.files.current a.foreignHeader)
    (h : writeForeignHeader found needsForeign a config w = .ok written w') :
    Obeys d (a.foreignHeader, headerContent? w.files found needsForeign config) written w w' := by
  obtain ⟨source?, u, hpresent, hrest⟩ := bind_eq_ok_iff.mp h
  unfold headerContent?
  obtain ⟨rfl, ⟨rfl, hnone⟩ | ⟨source, content, rfl, hmem, hread, hcontent⟩⟩ :=
    presentCompanion_eq_ok hpresent
  · rw [hnone]
    cases needsForeign with
    | true => exact obeys_of_writeBytes hq hrest
    | false =>
        cases hrest
        exact obeys_nothing d _ _
  · rw [hcontent]
    exact obeys_of_copyFile hq hread (hapart source hmem) hrest

theorem obeys_of_writeForeignImplementation
    (hq : a.foreignImplementation.normalize.parent = d.normalize)
    (hapart : ∀ c ∈ found.values,
      endOf w.files.current c ≠ endOf w.files.current a.foreignImplementation)
    (h : writeForeignImplementation found a config w = .ok written w') :
    Obeys d (a.foreignImplementation, companionContent? w.files found config.implExt)
      written w w' := by
  obtain ⟨source?, u, hpresent, hrest⟩ := bind_eq_ok_iff.mp h
  obtain ⟨rfl, ⟨rfl, hnone⟩ | ⟨source, content, rfl, hmem, hread, hcontent⟩⟩ :=
    presentCompanion_eq_ok hpresent
  · rw [hnone]
    cases hrest
    exact obeys_nothing d _ _
  · rw [hcontent]
    exact obeys_of_copyFile hq hread (hapart source hmem) hrest

theorem copyIfPossible_of_unread (h : ∀ content, w.files.read source ≠ .ok content) :
    copyIfPossible source target w = .ok [] w := by
  unfold copyIfPossible
  rw [tryCatch_apply, bind_of_ok (get_apply w)]
  cases hfile : w.files.isFile source with
  | error e =>
      have hfault : e.isFileError = true := by
        unfold FileTree.isFile at hfile
        split at hfile <;> cases hfile
        rfl
      rw [bind_of_error (lift_error_apply e w)]
      simp [hfault]
  | ok present =>
      rw [bind_of_ok (lift_ok_apply present w)]
      cases present with
      | false => rfl
      | true =>
          obtain ⟨content, hread⟩ := read_of_isFile hfile
          exact absurd hread (h content)

theorem obeys_of_copyOther (hq : target.normalize.parent = d.normalize)
    (hapart : ∀ c ∈ found.values, endOf w.files.current c ≠ endOf w.files.current target)
    (h : copyOther found ext target w = .ok written w') :
    Obeys d (target, furtherContent? w.files found (ext, target)) written w w' := by
  unfold copyOther at h
  unfold furtherContent?
  cases hcontent : companionContent? w.files found ext with
  | none =>
      have hnothing : copyOther found ext target w = .ok [] w := by
        unfold copyOther
        cases hget : found.get? ext with
        | none => rfl
        | some source =>
            apply copyIfPossible_of_unread
            intro content hread
            have hsome := companionContent?_eq_some_iff.mpr ⟨source, hget, hread⟩
            simp [hcontent] at hsome
      rw [← copyOther, hnothing] at h
      cases h
      rw [ite_self]
      exact obeys_nothing d target w
  | some content =>
      obtain ⟨source, hget, hread⟩ := companionContent?_eq_some_iff.mp hcontent
      rw [hget] at h
      simp only at h
      rw [copyIfPossible_apply target hread,
        copyFile_eq_writeBytes hread (hapart source (OrderedMap.mem_values_of_get? hget))] at h
      have htakes := writeBytes_returns_iff target content w
      cases hwrite : writeBytes target content w with
      | ok r u =>
          rw [if_pos (htakes.mp ⟨r, u, hwrite⟩)]
          rw [hwrite] at h
          cases h
          exact obeys_of_writeBytes hq (bind_of_ok hwrite)
      | error e u =>
          have hrefused : ¬ canTake w.files target = true := by simp [← htakes, hwrite]
          rw [if_neg hrefused]
          rw [hwrite] at h
          simp only at h
          split at h
          · cases h
            exact ⟨rfl, wrote_of_refused hq hwrite⟩
          · cases h

end

/-- The paths are different entries of the directory, and the companions found lie
elsewhere. -/
structure AreDestinations (d : Path) (current : Location) (found : OrderedMap Extension Path)
    (paths : List Path) : Prop where
  parent : ∀ q ∈ paths, q.normalize.parent = d.normalize
  distinct : paths.Pairwise fun q r => endOf current q ≠ endOf current r
  straight : ∀ c ∈ found.values, IsStraight c
  apart : ∀ c ∈ found.values, ∀ q ∈ paths, endOf current c ≠ endOf current q

section

variable {d : Path} {found : OrderedMap Extension Path} {paths : List Path}
variable {rules : List (Path × Option ByteArray)} {rule : Path × Option ByteArray}
variable {targets : List (Extension × Path)} {w u w' : Workspace} {written : List Path}

theorem path_of_mem_filesOf {file : Path × ByteArray} (h : file ∈ filesOf rules) :
    file.1 ∈ rules.map (·.1) :=
  List.mem_map.mpr ⟨_, mem_filesOf_iff.mp h, rfl⟩

theorem AreDestinations.companionContent?_eq
    (h : AreDestinations d w.files.current found paths) (hw : Wrote d (filesOf rules) w u)
    (hrules : ∀ q ∈ rules.map (·.1), q ∈ paths) (ext : Extension) :
    companionContent? u.files found ext = companionContent? w.files found ext := by
  have hread : ∀ source, found.get? ext = some source → ∀ content,
      (u.files.read source = .ok content ↔ w.files.read source = .ok content) := by
    intro source hget content
    have hsource := OrderedMap.mem_values_of_get? hget
    refine read_iff_of_evolves (h.straight source hsource) hw.grows ?_
    rintro ⟨_, hq, hend⟩
    obtain ⟨file, hfile, rfl⟩ := List.mem_map.mp hq
    exact h.apart source hsource file.1 (hrules _ (path_of_mem_filesOf hfile)) hend
  apply Option.ext
  intro content
  rw [companionContent?_eq_some_iff, companionContent?_eq_some_iff]
  exact exists_congr fun source => and_congr_right fun hget => hread source hget content

theorem AreDestinations.furtherContent?_eq
    (h : AreDestinations d w.files.current found paths) (hw : Wrote d (filesOf rules) w u)
    (hrules : ∀ q ∈ rules.map (·.1), q ∈ paths) {target : Extension × Path}
    (htarget : target.2 ∈ paths) :
    furtherContent? u.files found target = furtherContent? w.files found target := by
  unfold furtherContent?
  rw [hw.tried.canTake_eq (h.parent target.2 htarget), h.companionContent?_eq hw hrules]

theorem Wrote.obey (hw : Wrote d (filesOf rules) w u) (hstep : Obeys d rule written u w')
    (hfresh : ∀ q ∈ rules.map (·.1), endOf w.files.current q ≠ endOf w.files.current rule.1) :
    Wrote d (filesOf (rules ++ [rule])) w w' := by
  rw [filesOf_append]
  refine hw.trans hstep.2 fun f hf g hg => ?_
  have hlast := path_of_mem_filesOf hg
  rw [List.map_singleton, List.mem_singleton] at hlast
  rw [hlast]
  exact hfresh f.1 (path_of_mem_filesOf hf)

theorem wrote_of_copyOthers (hw : Wrote d (filesOf rules) w u)
    (hd : AreDestinations d w.files.current found (rules.map (·.1) ++ targets.map (·.2)))
    (h : copyOthers found targets u = .ok written w') :
    written = (filesOf (targets.map fun target =>
        (target.2, furtherContent? w.files found target))).map (·.1.normalize) ∧
      Wrote d (filesOf (rules ++ targets.map fun target =>
        (target.2, furtherContent? w.files found target))) w w' := by
  -- The rules obeyed so far grow by one in each step; what they leave of the tree as it was
  -- before the first of them decides about the next.
  induction targets generalizing u rules written with
  | nil =>
      cases h
      exact ⟨rfl, by simpa using hw⟩
  | cons target targets ih =>
      obtain ⟨copied, v, more, hstep, hrest, rfl⟩ := copyOthers_cons_eq_ok_iff.mp h
      have htarget : target.2 ∈ rules.map (·.1) ++ (target :: targets).map (·.2) := by simp
      have hobeys := obeys_of_copyOther (hd.parent _ htarget)
        (by rw [hw.grows.current]; exact fun c hc => hd.apart c hc _ htarget) hstep
      rw [hd.furtherContent?_eq hw (fun q hq => List.mem_append_left _ hq) htarget] at hobeys
      have hnext := hw.obey hobeys fun q hq =>
        (List.pairwise_append.mp hd.distinct).2.2 q hq target.2 (by simp)
      obtain ⟨hmore, hall⟩ := ih hnext (by simpa using hd) hrest
      refine ⟨?_, by simpa using hall⟩
      rw [hobeys.1, hmore, ← List.map_append, ← filesOf_append]
      rfl

end

section

variable {p : Project} {n : ModuleName} {source? : Option Path} {a : Artifacts}
variable {found : OrderedMap Extension Path} {current : Location} {needsForeign : Bool}
variable {w w' : Workspace} {written : List Path}

/-- The outputs of a module with the companions it may have: the destinations of companions
are different files, none of them is a companion, and no path goes through a double dot. -/
structure HasCompanions (p : Project) (n : ModuleName) (source? : Option Path) (a : Artifacts)
    (found : OrderedMap Extension Path) (current : Location) : Prop where
  artifacts : p.artifacts n = .ok a
  companions : companionsOf p.config source? = .ok found
  straight : ∀ q ∈ foreignPaths a ++ found.values, IsStraight q
  distinct : ((foreignPaths a).map Path.normalize).Nodup
  apart : ∀ c ∈ found.values, ∀ q ∈ foreignPaths a, placeFrom current c ≠ placeFrom current q

theorem HasCompanions.areDestinations (h : HasCompanions p n source? a found current) :
    ∃ d, AreDestinations d current found (foreignPaths a) := by
  obtain ⟨d, hd, hentries⟩ := exists_directory_of_artifacts h.artifacts
  have hdestination : ∀ q ∈ foreignPaths a, IsStraight q := fun q hq =>
    h.straight q (List.mem_append_left _ hq)
  have hcompanion : ∀ c ∈ found.values, IsStraight c := fun c hc =>
    h.straight c (List.mem_append_right _ hc)
  have hend : ∀ q ∈ foreignPaths a, ∃ f, q.normalize = ⟨d.root, d.parts ++ [f]⟩ ∧
      endOf current q = f :: endOf current d := by
    intro q hq
    obtain ⟨f, hf, heq⟩ := hentries q hq
    have hplain : IsPlain f := by
      refine ⟨(isComponent_iff.mp hf).2.1, (isComponent_iff.mp hf).2.2, ?_,
        (isComponent_iff.mp hf).1⟩
      rintro rfl
      exact hdestination q hq (by simp [heq])
    refine ⟨f, heq, ?_⟩
    rw [← endOf_normalize, heq, ← child_of_isPlain hplain, endOf_child current d hplain]
  refine ⟨d, ?_, ?_, hcompanion, ?_⟩
  · intro q hq
    obtain ⟨f, heq, _⟩ := hend q hq
    rw [heq, hd]
    simp [Path.parent]
  · refine (List.pairwise_map.mp h.distinct).imp_of_mem ?_
    intro q r hq hr hne heq
    obtain ⟨f, hqf, hqend⟩ := hend q hq
    obtain ⟨g, hrg, hrend⟩ := hend r hr
    rw [hqend, hrend] at heq
    rw [hqf, hrg, (List.cons.inj heq).1] at hne
    exact hne rfl
  · intro c hc q hq
    rw [endOf_straight current (hcompanion c hc), endOf_straight current (hdestination q hq)]
    exact h.apart c hc q hq

theorem writeCompanions_eq (source? : Option Path) (needsForeign : Bool) (a : Artifacts)
    (config : Config) :
    writeCompanions source? needsForeign a config =
      monadLift ((companionsOf config source?).mapError BuildError.fileName) >>= fun found =>
        writeFound found needsForeign a config := by
  cases source? <;> rfl

/-- The three stages together obey the rules. -/
theorem wrote_of_writeFound {d : Path}
    (hd : AreDestinations d w.files.current found (foreignPaths a))
    (h : writeFound found needsForeign a p.config w = .ok written w') :
    written = (filesOf (companionRules w.files found needsForeign a p.config)).map
        (·.1.normalize) ∧
      Wrote d (filesOf (companionRules w.files found needsForeign a p.config)) w w' := by
  obtain ⟨header, u, implementation, v, others, hheader, himplementation, hothers, rfl⟩ :=
    writeFound_eq_ok_iff.mp h
  have hheader_mem : a.foreignHeader ∈ foreignPaths a := by simp [foreignPaths]
  have himplementation_mem : a.foreignImplementation ∈ foreignPaths a := by simp [foreignPaths]
  have hfirst := obeys_of_writeForeignHeader (hd.parent _ hheader_mem)
    (fun c hc => hd.apart c hc _ hheader_mem) hheader
  have hu := hfirst.2
  have hsecond := obeys_of_writeForeignImplementation (hd.parent _ himplementation_mem)
    (by rw [hu.grows.current]; exact fun c hc => hd.apart c hc _ himplementation_mem)
    himplementation
  rw [hd.companionContent?_eq hu (by simpa using hheader_mem)] at hsecond
  have hv := hu.obey hsecond (by simpa using (List.pairwise_cons.mp hd.distinct).1 _ (by simp))
  obtain ⟨hmore, hall⟩ := wrote_of_copyOthers hv
    (by simpa [foreignPaths, OrderedMap.values] using hd) hothers
  refine ⟨?_, hall⟩
  rw [hfirst.1, hsecond.1, hmore, ← List.map_append, ← filesOf_append, ← List.map_append,
    ← filesOf_append]
  rfl

/-- The place holds the same file in both trees, or none in either. -/
def SameFileAt (t t' : FileTree) (l : Location) : Prop :=
  ∀ content modified,
    t'.get? l = some (.file content modified) ↔ t.get? l = some (.file content modified)

/-- If the foreign companions of a module could be written, then just what the rules say was
written: the paths returned are those of the rules that name something, in their order; the
destination of each holds what its rule names, and a destination for which nothing is named
stays as it was, as does every other file. Without a source there is at most an empty header. -/
theorem writeCompanions_follows_rules
    (h : HasCompanions p n source? a found w.files.current)
    (hreturns : writeCompanions source? needsForeign a p.config w = .ok written w') :
    written = (filesOf (companionRules w.files found needsForeign a p.config)).map
        (·.1.normalize) ∧
      (∀ rule ∈ companionRules w.files found needsForeign a p.config,
        (∀ content, rule.2 = some content → w'.files.read rule.1 = .ok content) ∧
        (rule.2 = none → SameFileAt w.files w'.files (placeFrom w.files.current rule.1))) ∧
      (∀ l, l ∉ (foreignPaths a).map (placeFrom w.files.current) →
        SameFileAt w.files w'.files l) ∧
      (source? = none → filesOf (companionRules w.files found needsForeign a p.config) =
        if needsForeign then [(a.foreignHeader, .empty)] else []) := by
  obtain ⟨d, hd⟩ := h.areDestinations
  rw [writeCompanions_eq, h.companions, mapError_ok, bind_of_ok (lift_ok_apply found w)] at hreturns
  obtain ⟨hwritten, hall⟩ := wrote_of_writeFound hd hreturns
  have hstraight : ∀ q ∈ foreignPaths a, IsStraight q := fun q hq =>
    h.straight q (List.mem_append_left _ hq)
  generalize hrules : companionRules w.files found needsForeign a p.config = rules
    at hwritten hall ⊢
  have hpaths : rules.map (·.1) = foreignPaths a := hrules ▸ map_companionRules ..
  have hdistinct : (rules.map fun rule => endOf w.files.current rule.1).Nodup := by
    have hends : ((foreignPaths a).map (endOf w.files.current)).Nodup :=
      List.pairwise_map.mpr hd.distinct
    rwa [← hpaths, List.map_map] at hends
  refine ⟨hwritten, ?_, ?_, ?_⟩
  · rintro ⟨q, content?⟩ hrule
    have hq : q ∈ foreignPaths a := hpaths ▸ List.mem_map_of_mem hrule
    refine ⟨?_, ?_⟩
    · rintro content rfl
      exact hall.holds (q, content) (mem_filesOf_iff.mpr hrule)
    · rintro rfl
      refine fun content modified => hall.grows.file_iff ?_ content modified
      rw [← endOf_straight w.files.current (hstraight q hq)]
      rintro ⟨_, hr, hend⟩
      obtain ⟨file, hfile, rfl⟩ := List.mem_map.mp hr
      have hsame := List.inj_on_of_nodup_map hdistinct hrule (mem_filesOf_iff.mp hfile) hend
      cases hsame
  · intro l hl content modified
    refine hall.grows.file_iff ?_ content modified
    rintro ⟨_, hr, rfl⟩
    obtain ⟨file, hfile, rfl⟩ := List.mem_map.mp hr
    have hq : file.1 ∈ foreignPaths a := hpaths ▸ path_of_mem_filesOf hfile
    rw [endOf_straight w.files.current (hstraight _ hq)] at hl
    exact hl (List.mem_map_of_mem hq)
  · rintro rfl
    cases h.companions
    subst hrules
    cases needsForeign <;>
      simp [companionRules, filesOf, headerContent?, companionContent?, furtherContent?]

end

def headerText : ByteArray := "// header".toUTF8

def inlineText : ByteArray := "// inline".toUTF8

/-- Companions of the source of the small project. It has none for the implementation, and a
directory stands where the first of the further ones is copied to. -/
def companionTree : FileTree :=
  smallTree
    |>.place "A.hh" ["src"] (.file headerText ⟨0, 0⟩) (by decide) (by decide)
    |>.place "A.h" ["src"] (.file headerText ⟨0, 0⟩) (by decide) (by decide)
    |>.place "A.inl" ["src"] (.file inlineText ⟨0, 0⟩) (by decide) (by decide)
    |>.place "A" ["out"] .directory (by decide) (by decide)
    |>.place "A_ffi.h" ["A", "out"] .directory (by decide) (by decide)

def companionWorkspace : Workspace :=
  ⟨companionTree, ⟨1, 0⟩, []⟩

theorem hasCompanions_small :
    HasCompanions smallProject alpha (some (.parse "src/A.purs")) smallArtifacts smallCompanions
      companionTree.current where
  artifacts := artifacts_small
  companions := rfl
  straight := by decide +kernel
  distinct := by decide +kernel
  apart := by decide +kernel

theorem writeCompanions_small :
    ∃ w', writeCompanions (some (.parse "src/A.purs")) true smallArtifacts smallProject.config
      companionWorkspace = .ok [.parse "out/A/A_ffi.hh", .parse "out/A/A_ffi.inl"] w' :=
  ⟨_, returns_iff.mp (by decide +kernel)⟩

theorem writeCompanions_follows_rules_small :
    ∃ w', writeCompanions (some (.parse "src/A.purs")) true smallArtifacts smallProject.config
        companionWorkspace = .ok [.parse "out/A/A_ffi.hh", .parse "out/A/A_ffi.inl"] w' ∧
      w'.files.read smallArtifacts.foreignHeader = .ok headerText ∧
      SameFileAt companionTree w'.files ["A_ffi.cc", "A", "out"] := by
  obtain ⟨w', hrun⟩ := writeCompanions_small
  obtain ⟨_, hrules, _, _⟩ := writeCompanions_follows_rules
    (w := companionWorkspace) hasCompanions_small hrun
  have hheader : headerContent? companionWorkspace.files smallCompanions true
      smallProject.config = some headerText := by
    decide +kernel
  have himplementation : companionContent? companionWorkspace.files smallCompanions
      smallProject.config.implExt = none := by
    decide +kernel
  exact ⟨w', hrun, (hrules _ (header_mem_companionRules ..)).1 headerText hheader,
    (hrules _ (implementation_mem_companionRules ..)).2 himplementation⟩

end Rebuild.Proofs.CompanionRules
