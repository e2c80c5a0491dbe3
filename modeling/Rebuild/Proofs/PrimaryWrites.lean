import Mathlib.Data.List.Nodup
import Rebuild.Proofs.Contents
import Rebuild.Proofs.Runs

/-!
The primary files of a module, as far as their texts can be written in UTF-8, are written
independently of each other. Each is refused in just the trees in which it would be refused
alone: what one write leaves behind, made directories or a file, neither helps nor hinders
the next. A text with a surrogate in it ends the writing.
-/

namespace Rebuild.Proofs.PrimaryWrites

open Rebuild.FileTree
open Rebuild.Proofs.PathNormal
open Rebuild.Proofs.Lookup
open Rebuild.Proofs.Growth
open Rebuild.Proofs.TreeCalls
open Rebuild.Proofs.Directories
open Rebuild.Proofs.Steps
open Rebuild.Proofs.Staleness
open Rebuild.Proofs.Writes
open Rebuild.Proofs.Refusals
open Rebuild.Proofs.Layout
open Rebuild.Proofs.Contents
open Rebuild.Proofs.Runs

/-- The second tree has the directories of the first and no others. -/
structure SameDirectories (t u : FileTree) : Prop where
  below : Below t u
  directory : ∀ l, u.get? l = some .directory → t.get? l = some .directory

theorem SameDirectories.refl (t : FileTree) : SameDirectories t t :=
  ⟨Below.refl t, fun _ h => h⟩

theorem SameDirectories.trans {t u v : FileTree} (h : SameDirectories t u)
    (h' : SameDirectories u v) : SameDirectories t v :=
  ⟨h.below.trans h'.below, fun l hl => h.directory l (h'.directory l hl)⟩

theorem SameDirectories.iff {t u : FileTree} (h : SameDirectories t u) (l : Location) :
    u.get? l = some .directory ↔ t.get? l = some .directory :=
  ⟨h.directory l, h.below.directory l⟩

theorem sameDirectories_of_write {t u : FileTree} {q : Path} {content : ByteArray} {now : MTime}
    (h : t.write q content now = .ok u) : SameDirectories t u := by
  have hgrow : Evolves now (fun _ => True) (fun _ => True) t u :=
    evolves_of_placeAt h fun _ _ => trivial
  obtain ⟨l, _, _, _, hview⟩ := placeAt_eq_ok h
  refine ⟨hgrow.below, fun k hk => ?_⟩
  rw [hview] at hk
  split at hk
  · cases hk
  · exact hk

section

variable {d : Path} {f : String} {v : Content} {content : ByteArray} {w u : Workspace}

theorem resolve_child_below {t t' : FileTree} (h : Below t t')
    (hd : t.isDirectory d = .ok true) (hf : IsPlain f) :
    t'.resolve (d.child f) = t.resolve (d.child f) := by
  have hchild : (d.child f).normalize = ⟨d.root, d.normalize.parts ++ [f]⟩ :=
    normalize_child_of_isPlain hf
  cases hq : t.resolve (d.child f) with
  | ok l => exact resolve_below h hq
  | error fault =>
      apply resolve_error_below h _ hq
      rintro rfl
      obtain ⟨k, hk, hdir⟩ := isDirectory_eq_true_iff.mp hd
      rw [← resolve_normalize] at hk
      rw [← resolve_normalize, hchild] at hq
      exact resolve_snoc_found (hchild ▸ isNormal_normalize (d.child f)) hk hdir hq

theorem writeFile_present (hd : w.files.isDirectory d = .ok true) (hf : IsPlain f)
    (hv : v.toBytes = .ok content) :
    writeFile (d.child f) v w =
      match w.files.write (d.child f) content w.now with
      | .ok files => .ok (d.child f).normalize { w with files }
      | .error fault => .error (.ofWrite (d.child f) fault) w := by
  have hparents : makeParents (d.child f) w = .ok () w :=
    makeParents_present (parent_child_of_isPlain hf) hd
  unfold writeFile writeBytes
  rw [hv]
  simp only
  rw [bind_of_ok hparents]
  have hput := putBytes_apply (d.child f) content w
  cases hwrite : w.files.write (d.child f) content w.now with
  | ok files =>
      rw [hwrite] at hput
      rw [bind_of_ok hput]
      rfl
  | error fault =>
      rw [hwrite] at hput
      rw [bind_of_error hput]

theorem writeFile_made {t : FileTree} (hmake : w.files.makeDirs d.normalize = (t, .ok ()))
    (hf : IsPlain f) (hv : v.HasBytes) :
    writeFile (d.child f) v w = writeFile (d.child f) v { w with files := t } := by
  obtain ⟨content, hcontent⟩ := hv
  have hparent : (d.child f).normalize.parent = d.normalize := parent_child_of_isPlain hf
  have hmade : makeParents (d.child f) w = .ok () { w with files := t } :=
    makeParents_eq_ok_iff.mpr ⟨t, by rw [hparent, hmake], rfl⟩
  have hd : t.isDirectory d.normalize = .ok true :=
    isDirectory_eq_true_iff.mpr (resolve_of_makeDirs hmake)
  have hpresent : makeParents (d.child f) { w with files := t } = .ok () { w with files := t } :=
    makeParents_present (hparent.trans (normalize_normalize d).symm) hd
  unfold writeFile writeBytes
  rw [hcontent]
  simp only
  rw [bind_of_ok hmade, bind_of_ok hpresent]

end

/-- A write of bytes to a file of the directory. -/
def IsFileOf (d : Path) (file : Path × Content) : Prop :=
  IsWritable file ∧ ∃ f, IsPlain f ∧ file.1 = d.child f

section

variable {d : Path} {file : Path × Content} {files : List (Path × Content)} {w u : Workspace}

theorem refusal?_eq_some_iff {f : String} {v : Content} {content : ByteArray}
    {failure : WriteFailure} (hd : w.files.isDirectory d = .ok true) (hf : IsPlain f)
    (hv : v.toBytes = .ok content) :
    refusal? w (d.child f, v) = some failure ↔
      ∃ fault, w.files.write (d.child f) content w.now = .error (.refused fault) ∧
        failure = ⟨(d.child f).normalize, fault⟩ := by
  unfold refusal?
  rw [writeFile_present hd hf hv]
  cases hwrite : w.files.write (d.child f) content w.now with
  | ok files => simp
  | error fault => cases fault <;> simp [BuildError.ofWrite, eq_comm]

theorem write_error_congr {t t' : FileTree} {q : Path} {content : ByteArray}
    {fault : AccessFault} (now now' : MTime) (h : SameDirectories t t') (hq : t'.resolve q = t.resolve q) :
    t'.write q content now' = .error fault ↔ t.write q content now = .error fault := by
  unfold FileTree.write
  rw [placeAt_error_iff, placeAt_error_iff, hq]
  simp only [h.iff]

theorem refusal?_eq (hd : w.files.isDirectory d = .ok true)
    (h : SameDirectories w.files u.files) (hfile : IsFileOf d file) :
    refusal? u file = refusal? w file := by
  obtain ⟨q, v⟩ := file
  obtain ⟨⟨_, hv⟩, f, hf, rfl⟩ := hfile
  obtain ⟨content, hcontent⟩ := hv
  have hdu : u.files.isDirectory d = .ok true := isDirectory_below h.below hd
  have hresolve := resolve_child_below h.below hd hf
  apply Option.ext
  intro failure
  rw [refusal?_eq_some_iff hdu hf hcontent, refusal?_eq_some_iff hd hf hcontent]
  simp only [write_error_congr w.now u.now h hresolve]

theorem sameDirectories_of_writeFile (hd : w.files.isDirectory d = .ok true)
    (hfile : IsFileOf d file) :
    SameDirectories w.files (after (writeFile file.1 file.2) w).files := by
  obtain ⟨q, v⟩ := file
  obtain ⟨⟨_, hv⟩, f, hf, rfl⟩ := hfile
  obtain ⟨content, hcontent⟩ := hv
  unfold after
  rw [writeFile_present hd hf hcontent]
  cases hwrite : w.files.write (d.child f) content w.now with
  | ok files => exact sameDirectories_of_write hwrite
  | error fault => exact SameDirectories.refl w.files

/-- In a directory that is there, the files that are refused are those that would be
refused alone. -/
theorem tryWriteAll_present (hd : w.files.isDirectory d = .ok true)
    (h : SameDirectories w.files u.files) (hfiles : ∀ file ∈ files, IsFileOf d file) :
    ∃ u', tryWriteAll files u = .ok (files.filterMap (refusal? w)) u' := by
  induction files generalizing u with
  | nil => exact ⟨u, rfl⟩
  | cons file files ih =>
      have hfile := hfiles file (by simp)
      have hdu : u.files.isDirectory d = .ok true := isDirectory_below h.below hd
      obtain ⟨u', hrest⟩ := ih (h.trans (sameDirectories_of_writeFile hdu hfile))
        fun f hf => hfiles f (List.mem_cons_of_mem file hf)
      refine ⟨u', ?_⟩
      rw [tryWriteAll_cons_apply hfile.1, hrest, refusal?_eq hd h hfile]
      cases hrefusal : refusal? w file <;> simp [hrefusal]

def IsBarred (d : Path) (t : FileTree) : Prop :=
  ∀ t', t.makeDirs d.normalize ≠ (t', .ok ())

theorem IsBarred.below {t u : FileTree} (h : IsBarred d t) (htu : Below t u) : IsBarred d u := by
  intro u' hmake
  have hgrow : Evolves ⟨0, 0⟩ (fun _ => True) (fun _ => True) u (u.makeDirs d.normalize).1 :=
    evolves_makeDirs u d.normalize fun _ _ _ _ _ _ => trivial
  rw [hmake] at hgrow
  obtain ⟨l, hl, hdir⟩ := resolve_of_makeDirs hmake
  obtain ⟨t', ht', _⟩ := makeDirs_of_below (htu.trans hgrow.below) hl hdir
  exact h t' ht'

theorem refusal?_of_isBarred (h : IsBarred d w.files) (hfile : IsFileOf d file) :
    ∃ failure, refusal? w file = some failure ∧ failure.path = file.1.normalize := by
  rcases writeFile_of_refusal? (w := w) hfile.1 with ⟨_, hwrite⟩ | ⟨failure, hsome, hpath, _⟩
  · obtain ⟨_, f, hf, hq⟩ := hfile
    obtain ⟨_, _, hbytes⟩ := writeFile_eq_ok_iff.mp hwrite
    obtain ⟨_, hparents, _⟩ := writeBytes_eq_ok_iff.mp hbytes
    obtain ⟨t, hmake, _⟩ := makeParents_eq_ok_iff.mp hparents
    rw [hq, parent_child_of_isPlain hf] at hmake
    exact absurd hmake (h t)
  · exact ⟨failure, hsome, hpath⟩

theorem below_of_writeFile (w : Workspace) (file : Path × Content) :
    Below w.files (after (writeFile file.1 file.2) w).files :=
  (within_writeFile file.2 (admits_top w.files.current file.1) w rfl).files.below

theorem tryWriteAll_of_isBarred (h : IsBarred d w.files)
    (hfiles : ∀ file ∈ files, IsFileOf d file) :
    ∃ failures w', tryWriteAll files w = .ok failures w' ∧
      failures.map (·.path) = files.map (·.1.normalize) := by
  induction files generalizing w with
  | nil => exact ⟨[], w, rfl, rfl⟩
  | cons file files ih =>
      have hfile := hfiles file (by simp)
      obtain ⟨failures, w', hrest, hpaths⟩ := ih (h.below (below_of_writeFile w file))
        fun f hf => hfiles f (List.mem_cons_of_mem file hf)
      obtain ⟨failure, hsome, hpath⟩ := refusal?_of_isBarred h hfile
      refine ⟨failure :: failures, w', ?_, by simp [hpath, hpaths]⟩
      rw [tryWriteAll_cons_apply hfile.1, hrest, hsome]
      rfl

/-- The files that would be refused if each were all that is asked of the workspace. -/
def refusedAmong (w : Workspace) (files : List (Path × Content)) : List (Path × Content) :=
  files.filter fun file => (refusal? w file).isSome

theorem map_path_filterMap (hfiles : ∀ file ∈ files, IsWritable file) :
    (files.filterMap (refusal? w)).map (·.path) =
      (refusedAmong w files).map (·.1.normalize) := by
  unfold refusedAmong
  induction files with
  | nil => rfl
  | cons file files ih =>
      have hrest := ih fun f hf => hfiles f (List.mem_cons_of_mem file hf)
      rcases writeFile_of_refusal? (w := w) (hfiles file (by simp)) with
        ⟨hnone, _⟩ | ⟨failure, hsome, hpath, _⟩
      · simp [hnone, hrest]
      · simp [hsome, hpath, hrest]

theorem after_writeFile_made {t : FileTree}
    (hmake : w.files.makeDirs d.normalize = (t, .ok ())) (hfile : IsFileOf d file) :
    refusal? w file = refusal? { w with files := t } file ∧
      after (writeFile file.1 file.2) w = after (writeFile file.1 file.2) { w with files := t } := by
  obtain ⟨q, v⟩ := file
  obtain ⟨⟨_, hv⟩, f, hf, rfl⟩ := hfile
  have hwrite : writeFile (d.child f) v w = writeFile (d.child f) v { w with files := t } :=
    writeFile_made hmake hf hv
  unfold refusal? after
  rw [hwrite]
  exact ⟨rfl, rfl⟩

/-- Of some files of one directory, those that are refused are those that would be refused
alone, and the first of them is refused for the same reason. -/
theorem tryWriteAll_independent (hfiles : ∀ file ∈ files, IsFileOf d file) (w : Workspace) :
    ∃ failures w', tryWriteAll files w = .ok failures w' ∧
      failures.map (·.path) = (refusedAmong w files).map (·.1.normalize) ∧
      failures.head? = files.findSome? (refusal? w) := by
  cases files with
  | nil => exact ⟨[], w, rfl, rfl, rfl⟩
  | cons file files =>
      have hfile := hfiles file (by simp)
      have hwritable : ∀ f ∈ file :: files, IsWritable f := fun f hf => (hfiles f hf).1
      by_cases hmade : ∃ t, w.files.makeDirs d.normalize = (t, .ok ())
      -- The directory can be made: the first write makes it, whatever becomes of the file.
      · obtain ⟨t, hmake⟩ := hmade
        have hd : t.isDirectory d = .ok true := by
          obtain ⟨l, hl, hdir⟩ := resolve_of_makeDirs hmake
          exact isDirectory_eq_true_iff.mpr ⟨l, (resolve_normalize t d) ▸ hl, hdir⟩
        obtain ⟨w', hall⟩ := tryWriteAll_present (w := { w with files := t })
          (u := { w with files := t }) hd (SameDirectories.refl t) hfiles
        have hfirst := after_writeFile_made hmake hfile
        have hrefusals : (file :: files).filterMap (refusal? { w with files := t }) =
            (file :: files).filterMap (refusal? w) :=
          List.filterMap_congr fun f hf => (after_writeFile_made hmake (hfiles f hf)).1.symm
        refine ⟨(file :: files).filterMap (refusal? w), w', ?_, map_path_filterMap hwritable, ?_⟩
        · rw [← hrefusals, ← hall, tryWriteAll_cons_apply hfile.1, hfirst.1, hfirst.2,
            tryWriteAll_cons_apply hfile.1]
        · exact List.head?_filterMap
      -- It cannot: then no later write can make it either.
      · have hbarred : IsBarred d w.files := fun t hmake => hmade ⟨t, hmake⟩
        obtain ⟨failures, w', hall, hpaths⟩ := tryWriteAll_of_isBarred hbarred hfiles
        have hrefused : refusedAmong w (file :: files) = file :: files := by
          apply List.filter_eq_self.mpr
          intro f hf
          obtain ⟨failure, hsome, _⟩ := refusal?_of_isBarred hbarred (hfiles f hf)
          simp [hsome]
        obtain ⟨failure, hsome, _⟩ := refusal?_of_isBarred hbarred hfile
        refine ⟨failures, w', hall, by rw [hpaths, hrefused], ?_⟩
        rw [tryWriteAll_cons_apply hfile.1, hsome] at hall
        split at hall
        · cases hall
          simp [hsome]
        · cases hall

end

def headerPart (ds : List Content) : List Content :=
  ds.takeWhile fun d => !Declarations.isHeaderEnd d

def implementationPart (ds : List Content) : List Content :=
  (ds.dropWhile fun d => !Declarations.isHeaderEnd d).tail

theorem split_of_countP {ds : List Content} (h : ds.countP Declarations.isHeaderEnd ≤ 1) :
    Declarations.split ds = .ok (headerPart ds, implementationPart ds) := by
  unfold Declarations.split headerPart implementationPart
  cases hdrop : ds.dropWhile fun d => !Declarations.isHeaderEnd d with
  | nil => rfl
  | cons marker rest =>
      have hmarker : Declarations.isHeaderEnd marker = true := by
        have hhead := List.head?_dropWhile_not (fun d => !Declarations.isHeaderEnd d) ds
        simpa [hdrop] using hhead
      have hcount : ds.countP Declarations.isHeaderEnd =
          (ds.takeWhile fun d => !Declarations.isHeaderEnd d).countP Declarations.isHeaderEnd +
            (rest.countP Declarations.isHeaderEnd + 1) := by
        rw [← List.countP_cons_of_pos hmarker, ← hdrop, ← List.countP_append,
          List.takeWhile_append_dropWhile]
      have hrest : rest.any Declarations.isHeaderEnd = false := by
        rw [List.any_eq_false]
        exact List.countP_eq_zero.mp (by omega)
      simp [hrest]

def primaryNames (config : Config) (n : ModuleName) : List String :=
  [n.baseName ++ "." ++ config.implExt.text, n.baseName ++ "." ++ config.headerExt.text,
    config.externsFile]

section

variable {p : Project} {m : CompiledModule} {environment : Value} {externs : Content}
variable {a : Artifacts} {texts : CodeText × CodeText} {w : Workspace}

theorem primary_of_artifacts {n : ModuleName} (hsegments : ∀ s ∈ n.segments, '/' ∉ s.toList)
    (hnames : ∀ f ∈ primaryNames p.config n, IsPlain f) (ha : p.artifacts n = .ok a) :
    a.primary = (primaryNames p.config n).map (homeOf p n).child := by
  have houtputs := areOutputs_of_artifacts hsegments ha
  simp only [primaryNames, List.forall_mem_cons, List.not_mem_nil, false_implies, implies_true,
    and_true] at hnames
  obtain ⟨himpl, hheader, _⟩ := hnames
  obtain ⟨_, _, himplementation⟩ := Path.withName_eq_ok_iff.mp houtputs.implementation
  obtain ⟨_, _, hheader'⟩ := Path.withName_eq_ok_iff.mp houtputs.header
  simp [Artifacts.primary, primaryNames, himplementation, hheader', houtputs.externs,
    child_of_isPlain himpl, child_of_isPlain hheader, Path.name?]

/-- What has to be known of a request for its primary files to be tried: the module name
and the settings give them names of their own in the module's directory, and there is a
content for each. -/
structure IsRequest (p : Project) (m : CompiledModule) (environment : Value) (externs : Content)
    (a : Artifacts) (texts : CodeText × CodeText) : Prop where
  artifacts : p.artifacts m.name = .ok a
  segments : ∀ s ∈ m.name.segments, '/' ∉ s.toList
  names : ∀ f ∈ primaryNames p.config m.name, IsPlain f
  distinct : (primaryNames p.config m.name).Nodup
  nul : ∀ q ∈ a.primary, q.hasNul = false
  externs : externs.isExterns = true
  ends : m.declarations.countP Declarations.isHeaderEnd ≤ 1
  header : ∃ body, p.render (headerPart m.declarations) environment = .ok body ∧
    texts.1 = Declarations.withBanner p.config body
  implementation : ∃ body, p.render (implementationPart m.declarations) environment = .ok body ∧
    texts.2 = Declarations.withBanner p.config body

theorem IsRequest.planned (h : IsRequest p m environment externs a texts) :
    Planned p m environment externs a texts := by
  refine ⟨h.externs, h.artifacts, ?_⟩
  obtain ⟨headerBody, hheader, hfirst⟩ := h.header
  obtain ⟨implementationBody, himplementation, hsecond⟩ := h.implementation
  simp only [renderModule, split_of_countP h.ends, hheader, himplementation, bind, Except.bind,
    pure, Except.pure, ← hfirst, ← hsecond]

theorem IsRequest.hasNul (h : IsRequest p m environment externs a texts) :
    ∀ file ∈ primaryFiles a texts externs, file.1.hasNul = false :=
  fun _ hfile => h.nul _ (primary_of_mem_primaryFiles hfile)

theorem IsRequest.isExterns (h : IsRequest p m environment externs a texts) :
    ∀ file ∈ primaryFiles a texts externs, file.2.isExterns = true :=
  fun _ hfile => isExterns_of_mem_primaryFiles h.externs hfile

theorem IsRequest.files (h : IsRequest p m environment externs a texts)
    (hencodable : ∀ file ∈ primaryFiles a texts externs, file.2.IsEncodable) :
    ∀ file ∈ primaryFiles a texts externs, IsFileOf (homeOf p m.name) file := by
  intro file hfile
  have hprimary := primary_of_mem_primaryFiles hfile
  have hbytes := Content.hasBytes_of_isEncodable (h.isExterns file hfile) (hencodable file hfile)
  refine ⟨⟨h.nul _ hprimary, hbytes⟩, ?_⟩
  rw [primary_of_artifacts h.segments h.names h.artifacts] at hprimary
  obtain ⟨f, hf, hq⟩ := List.mem_map.mp hprimary
  exact ⟨f, h.names f hf, hq.symm⟩

theorem IsRequest.nodup_ends (h : IsRequest p m environment externs a texts)
    (current : Location) :
    ((primaryFiles a texts externs).map fun file => endOf current file.1).Nodup := by
  have hprimary : (primaryFiles a texts externs).map (fun file => endOf current file.1) =
      a.primary.map (endOf current) := rfl
  rw [hprimary, primary_of_artifacts h.segments h.names h.artifacts, List.map_map, List.Nodup,
    List.pairwise_map]
  refine h.distinct.imp_of_mem ?_
  intro f g hf hg hne heq
  simp only [Function.comp_apply, endOf_child _ _ (h.names f hf),
    endOf_child _ _ (h.names g hg)] at heq
  exact hne (List.cons.inj heq).1

theorem IsRequest.normalize (h : IsRequest p m environment externs a texts) {q : Path}
    (hq : q ∈ a.primary) : q.normalize = q := by
  have hplain : ∀ s ∈ m.name.segments, IsPlain s := fun s hs =>
    isPlain_of_mem_segments hs (h.segments s hs)
  rw [primary_of_artifacts h.segments h.names h.artifacts] at hq
  obtain ⟨f, hf, rfl⟩ := List.mem_map.mp hq
  rw [normalize_child_of_isPlain (h.names f hf), normalize_homeOf hplain,
    child_of_isPlain (h.names f hf)]

theorem mem_refusedAmong_iff {file : Path × Content} {files : List (Path × Content)} :
    file ∈ refusedAmong w files ↔ file ∈ files ∧ ∃ failure, refusal? w file = some failure := by
  simp [refusedAmong, Option.isSome_iff_exists]

theorem not_isFile_of_refusal? {file : Path × Content} {failure : WriteFailure} {t : FileTree}
    (hfile : IsWritable file) (hrefused : refusal? w file = some failure)
    (h : Below w.files t) : ¬ IsFile t file.1 := by
  intro hpresent
  obtain ⟨content, hcontent⟩ := hfile.2
  obtain ⟨u, hwrite, _⟩ := writeBytes_of_below content h hpresent
  have hnone : refusal? w file = none := (refusal?_eq_none_iff hfile).mpr
    ⟨_, u, writeFile_eq_ok_iff.mpr ⟨content, hcontent, hwrite⟩⟩
  simp [hrefused] at hnone

theorem IsRequest.needsRebuild (h : IsRequest p m environment externs a texts)
    (hencodable : ∀ file ∈ primaryFiles a texts externs, file.2.IsEncodable) {t : FileTree}
    (hgrow : Below w.files t) (hrefused : refusedAmong w (primaryFiles a texts externs) ≠ []) :
    p.needsRebuild t m.name ≠ .ok false := by
  intro hfresh
  obtain ⟨_, b, _, hb, hprimary, _⟩ := needsRebuild_eq_false_iff.mp hfresh
  obtain rfl := Except.ok.inj (h.artifacts.symm.trans hb)
  obtain ⟨file, hmem⟩ := List.exists_mem_of_ne_nil _ hrefused
  obtain ⟨hfile, failure, hfailure⟩ := mem_refusedAmong_iff.mp hmem
  obtain ⟨s, hs⟩ := hprimary file.1 (primary_of_mem_primaryFiles hfile)
  exact not_isFile_of_refusal? (h.files hencodable file hfile).1 hfailure hgrow
    (isFile_iff_timestamp?.mpr ⟨s, hs⟩)

/-- The three writes were independent. The primary files of a module are written if none
would be refused alone. Otherwise the error is that of the first which would be, with one
failure for each that would be; the module is not fresh then, and nothing else of it is
written or printed. In both cases each of the other files holds what was to be written. -/
structure WritesApart (p : Project) (m : CompiledModule) (environment : Value)
    (externs : Content) (a : Artifacts) (texts : CodeText × CodeText) (w w' : Workspace) :
    Prop where
  written : refusedAmong w (primaryFiles a texts externs) = [] →
    p.writePrimary m environment externs w = .ok a w'
  refused : refusedAmong w (primaryFiles a texts externs) ≠ [] → ∃ first rest,
    p.writePrimary m environment externs w = .error (.write first rest) w' ∧
    (first :: rest).map (·.path) =
      (refusedAmong w (primaryFiles a texts externs)).map (·.1) ∧
    (primaryFiles a texts externs).findSome? (refusal? w) = some first ∧
    p.needsRebuild w'.files m.name ≠ .ok false ∧
    ∀ source?, p.writeModule m environment externs source? w = .error (.write first rest) w'
  kept : ∀ file ∈ primaryFiles a texts externs,
    file ∉ refusedAmong w (primaryFiles a texts externs) →
    ∃ content, file.2.toBytes = .ok content ∧ w'.files.read file.1 = .ok content

/-- Its path tells a primary file apart, so a file that would not be refused alone is not
among the failures. -/
theorem IsRequest.path_ne_of_not_refused (h : IsRequest p m environment externs a texts)
    {failures : List WriteFailure} {file : Path × Content}
    (hpaths : failures.map (·.path) = (refusedAmong w (primaryFiles a texts externs)).map (·.1))
    (hfile : file ∈ primaryFiles a texts externs)
    (hkept : file ∉ refusedAmong w (primaryFiles a texts externs)) :
    ∀ failure ∈ failures, failure.path ≠ file.1.normalize := by
  intro failure hfailure heq
  have hmem : file.1 ∈ (refusedAmong w (primaryFiles a texts externs)).map (·.1) := by
    rw [← hpaths, ← h.normalize (primary_of_mem_primaryFiles hfile), ← heq]
    exact List.mem_map_of_mem hfailure
  obtain ⟨other, hother, hsame⟩ := List.mem_map.mp hmem
  have hself : other = file := List.inj_on_of_nodup_map (h.nodup_ends w.files.current)
    (mem_refusedAmong_iff.mp hother).1 hfile (congrArg (endOf w.files.current) hsame)
  exact hkept (hself ▸ hother)

theorem IsRequest.writesApart (h : IsRequest p m environment externs a texts)
    (hencodable : ∀ file ∈ primaryFiles a texts externs, file.2.IsEncodable) (w : Workspace) :
    ∃ w', WritesApart p m environment externs a texts w w' := by
  have hfiles := h.files hencodable
  have hnormal : ∀ file ∈ primaryFiles a texts externs, file.1.normalize = file.1 :=
    fun file hfile => h.normalize (primary_of_mem_primaryFiles hfile)
  obtain ⟨failures, w', hall, hpaths, hfirst⟩ := tryWriteAll_independent hfiles w
  replace hpaths : failures.map (·.path) =
      (refusedAmong w (primaryFiles a texts externs)).map (·.1) := by
    rw [hpaths]
    exact List.map_congr_left fun file hfile => hnormal file (mem_refusedAmong_iff.mp hfile).1
  have hgrow := (within_tryWriteAll (primaryFiles a texts externs)
    fun f _ => admits_top w.files.current f.1).of_ok rfl hall
  refine ⟨w', ?_, ?_, ?_⟩
  · intro hnone
    rw [hnone, List.map_nil, List.map_eq_nil_iff] at hpaths
    rw [writePrimary_apply h.planned, hall, hpaths]
  · intro hsome
    cases failures with
    | nil => exact absurd (List.map_eq_nil_iff.mp hpaths.symm) hsome
    | cons first rest =>
        have hfail : p.writePrimary m environment externs w = .error (.write first rest) w' := by
          rw [writePrimary_apply h.planned, hall]
        exact ⟨first, rest, hfail, hpaths, hfirst.symm,
          h.needsRebuild hencodable hgrow.files.below hsome, fun _ => bind_of_error hfail⟩
  · intro file hfile hkept
    obtain ⟨content, hcontent⟩ := (hfiles file hfile).1.2
    refine ⟨content, hcontent, read_of_tryWriteAll_kept hall
      (List.pairwise_map.mp (h.nodup_ends _)) file hfile ?_ content hcontent⟩
    exact h.path_ne_of_not_refused hpaths hfile hkept

theorem IsRequest.writePrimary_of_stopsAfter (h : IsRequest p m environment externs a texts)
    {before : List (Path × Content)} {fault : CodeText.Fault}
    (hstop : StopsAfter before (primaryFiles a texts externs) fault) (w : Workspace) :
    p.writePrimary m environment externs w =
      .error (.unencodable fault) (after (tryWriteAll before) w) := by
  rw [writePrimary_apply h.planned,
    tryWriteAll_of_stopsAfter (hstop.isWritable h.hasNul h.isExterns) hstop]

theorem WritesApart.writePrimary_ne {w' : Workspace}
    (h : WritesApart p m environment externs a texts w w') (fault : CodeText.Fault)
    (u : Workspace) : p.writePrimary m environment externs w ≠ .error (.unencodable fault) u := by
  intro herror
  by_cases hnone : refusedAmong w (primaryFiles a texts externs) = []
  · simp [h.written hnone] at herror
  · obtain ⟨first, rest, hfail, _⟩ := h.refused hnone
    simp [hfail] at herror

/-- The three writes are independent just in case each of the texts can be written in UTF-8.
The first that cannot, for a surrogate that stands alone in it, is the error; the files
ahead of it were tried then and those behind it were not. -/
theorem writePrimary_independent_iff (h : IsRequest p m environment externs a texts)
    (w : Workspace) :
    ((∃ w', WritesApart p m environment externs a texts w w') ↔
      ∀ file ∈ primaryFiles a texts externs, file.2.IsEncodable) ∧
    ∀ before fault, StopsAfter before (primaryFiles a texts externs) fault →
      p.writePrimary m environment externs w =
        .error (.unencodable fault) (after (tryWriteAll before) w) := by
  refine ⟨⟨?_, fun hencodable => h.writesApart hencodable w⟩,
    fun before fault hstop => h.writePrimary_of_stopsAfter hstop w⟩
  rintro ⟨w', hapart⟩
  rcases isEncodable_or_stopsAfter h.isExterns with hencodable | ⟨before, fault, hstop⟩
  · exact hencodable
  · exact absurd (h.writePrimary_of_stopsAfter hstop w) (hapart.writePrimary_ne fault _)

end

/-- The small project with a directory where the header of its first module belongs. -/
def barredWorkspace : Workspace :=
  after (makeParents (.parse "out/A/A.hh/A.hh")) smallWorkspace

def smallModule : CompiledModule :=
  ⟨alpha, [.text "// A"], []⟩

def smallTexts : CodeText × CodeText :=
  ("// Generated by pcc version 0.9.2\n// A\n", "// Generated by pcc version 0.9.2\n\n")

theorem isRequest_small :
    IsRequest smallProject smallModule .null (.text "data") smallArtifacts smallTexts where
  artifacts := artifacts_small
  segments := by decide
  names := by decide +kernel
  distinct := by decide +kernel
  nul := by decide +kernel
  externs := rfl
  ends := by decide
  header := ⟨"// A", rfl, by decide +kernel⟩
  implementation := ⟨"", rfl, by decide +kernel⟩

theorem writePrimary_independent_barred :
    ∃ w' failure,
      smallProject.writePrimary smallModule .null (.text "data") barredWorkspace =
        .error (.write failure []) w' ∧
      failure.path = .parse "out/A/A.hh" ∧
      smallProject.needsRebuild w'.files alpha ≠ .ok false ∧
      w'.files.read (.parse "out/A/externs.json") = .ok "data".toUTF8 := by
  have hrefused : (refusedAmong barredWorkspace
      (primaryFiles smallArtifacts smallTexts (.text "data"))).map (·.1) =
        [.parse "out/A/A.hh"] := by
    decide +kernel
  have hencodable : ∀ file ∈ primaryFiles smallArtifacts smallTexts (.text "data"),
      file.2.IsEncodable := by
    simp [primaryFiles, smallTexts, Content.IsEncodable]
  obtain ⟨w', hapart⟩ :=
    (writePrimary_independent_iff isRequest_small barredWorkspace).1.mpr hencodable
  obtain ⟨first, rest, herror, hpaths, _, hstale, _⟩ :=
    hapart.refused fun hnone => by simp [hnone] at hrefused
  rw [hrefused, List.map_cons, List.cons.injEq, List.map_eq_nil_iff] at hpaths
  obtain ⟨hpath, rfl⟩ := hpaths
  obtain ⟨content, hcontent, hread⟩ := hapart.kept (smallArtifacts.externs, .text "data")
    (by simp [primaryFiles]) fun hmem => by
      have hother := List.mem_map_of_mem (f := (·.1)) hmem
      rw [hrefused] at hother
      revert hother
      decide +kernel
  obtain rfl := Except.ok.inj ((Content.toBytes_ofString "data").symm.trans hcontent)
  exact ⟨w', first, herror, hpath, hstale, hread⟩

def surrogateModule : CompiledModule :=
  ⟨alpha, [.text surrogateText], []⟩

def surrogateTexts : CodeText × CodeText :=
  (Declarations.withBanner .default surrogateText, smallTexts.2)

theorem isRequest_surrogate :
    IsRequest smallProject surrogateModule .null (.text "data") smallArtifacts surrogateTexts :=
  { isRequest_small with
    ends := by decide
    header := ⟨surrogateText, rfl, rfl⟩
    implementation := isRequest_small.implementation }

/-- Not every request has its three files written independently. -/
theorem not_forall_writes_apart :
    ¬ ∀ (p : Project) (m : CompiledModule) (environment : Value) (externs : Content)
        (a : Artifacts) (texts : CodeText × CodeText) (w : Workspace),
      IsRequest p m environment externs a texts →
        ∃ w', WritesApart p m environment externs a texts w w' := by
  intro h
  obtain ⟨w', hapart⟩ := h _ _ _ _ _ _ smallWorkspace isRequest_surrogate
  rcases isEncodable_or_stopsAfter isRequest_surrogate.isExterns with
    hencodable | ⟨before, fault, hstop⟩
  · have hheader := hencodable (smallArtifacts.header, .text surrogateTexts.1)
      (by simp [primaryFiles])
    exact hheader ⟨0, Nat.zero_lt_succ _⟩
      (by simp [surrogateTexts, surrogateText, Declarations.withBanner])
  · exact hapart.writePrimary_ne fault _ (isRequest_surrogate.writePrimary_of_stopsAfter hstop _)

end Rebuild.Proofs.PrimaryWrites
