import Rebuild.Proofs.InterfaceRoundTrip
import Rebuild.Proofs.FileNames

namespace Rebuild.Proofs.OutputNames

open Rebuild.FileTree
open Rebuild.Proofs.PathNormal
open Rebuild.Proofs.Lookup
open Rebuild.Proofs.Growth
open Rebuild.Proofs.Steps
open Rebuild.Proofs.Writes
open Rebuild.Proofs.Layout
open Rebuild.Proofs.FileNames
open Rebuild.Proofs.Runs
open Rebuild.Proofs.InterfaceRoundTrip

/-- What a file name keeps of an extension. File calls read a name again, so a slash ends
it; what may stand behind one names nothing. -/
def fileExtension (ext : Extension) : String :=
  (Text.split '/' ext.text).head (Text.split_ne_nil '/' ext.text)

def fileName (x : String) (ext : Extension) : String :=
  x ++ "." ++ fileExtension ext

theorem slash_not_mem_fileExtension (ext : Extension) : '/' ∉ (fileExtension ext).toList :=
  not_mem_of_mem_split (List.head_mem _)

theorem fileExtension_of_not_mem {ext : Extension} (h : '/' ∉ ext.text.toList) :
    fileExtension ext = ext.text := by
  simp [fileExtension, split_of_not_mem h]

theorem fileExtension_of_slash {ext : Extension} {a b : String} (ha : '/' ∉ a.toList)
    (h : ext.text = a ++ "/" ++ b) : fileExtension ext = a := by
  have hsplit : Text.split '/' ext.text = a :: Text.split '/' b := by
    rw [h, show "/" = String.singleton '/' from rfl, split_append, split_of_not_mem ha]
    rfl
  simp [fileExtension, hsplit]

theorem isPlain_fileName {x : String} (hx : IsComponent x) (ext : Extension) :
    IsPlain (fileName x ext) := by
  have hcomponent : IsComponent (fileName x ext) := by
    rw [fileName, String.append_assoc]
    exact isComponent_append hx (by simp [slash_not_mem_fileExtension])
  refine ⟨(isComponent_iff.mp hcomponent).2.1, (isComponent_iff.mp hcomponent).2.2, ?_,
    (isComponent_iff.mp hcomponent).1⟩
  intro hup
  have hchars : x.toList ++ '.' :: (fileExtension ext).toList = ['.', '.'] := by
    simpa [fileName] using congrArg String.toList hup
  obtain ⟨_, hne, hdot⟩ := isComponent_iff.mp hx
  cases hcs : x.toList with
  | nil => exact hne (by simpa using hcs)
  | cons c cs =>
      rw [hcs] at hchars
      simp only [List.cons_append, List.cons.injEq] at hchars
      obtain ⟨rfl, hrest⟩ := hchars
      have hnil : cs = [] := by
        cases cs with
        | nil => rfl
        | cons d ds => simp at hrest
      apply hdot
      apply String.ext
      simp [hcs, hnil]

theorem components_extend {x : String} {ext : Extension} (hx : IsComponent x)
    (h : Path.isFileName (x ++ "." ++ ext.text) = true) :
    Path.components (x ++ "." ++ ext.text) = [fileName x ext] := by
  have hname := components_of_isPlain (isPlain_fileName hx ext)
  by_cases hmem : '/' ∈ ext.text.toList
  · obtain ⟨a, b, ha, heq⟩ := exists_of_slash hmem
    have hcount := (isFileName_iff.mp h).2.1
    rw [fileName, fileExtension_of_slash ha heq] at hname ⊢
    rw [heq, ← String.append_assoc, ← String.append_assoc, components_append, hname] at hcount ⊢
    have hnil : Path.components b = [] := by simpa using hcount
    rw [hnil, List.append_nil]
  · rwa [fileName, fileExtension_of_not_mem hmem] at hname ⊢

theorem endOf_addExtension (current : Location) {d q : Path} {x : String} {ext : Extension}
    (hx : IsComponent x) (h : Path.addExtension ⟨d.root, d.parts ++ [x]⟩ ext = .ok q) :
    endOf current q = fileName x ext :: endOf current d := by
  obtain ⟨_, hname, rfl⟩ := Path.withName_eq_ok_iff.mp h
  simp only [Path.name?, List.getLast?_append, List.getLast?_singleton, Option.some_or,
    Option.getD_some, List.dropLast_concat] at hname ⊢
  rw [← endOf_child current d (isPlain_fileName hx ext),
    child_of_isPlain (isPlain_fileName hx ext)]
  simp [endOf, Path.normalize, components_extend hx hname,
    components_of_isPlain (isPlain_fileName hx ext)]

theorem exists_last_slash {s : String} (h : '/' ∈ s.toList) :
    ∃ a b, '/' ∉ b.toList ∧ s = a ++ "/" ++ b := by
  obtain ⟨bs, as, hs, hbs⟩ := List.eq_append_cons_of_mem (List.mem_reverse.mpr h)
  refine ⟨.ofList as.reverse, .ofList bs.reverse, by simpa using hbs, ?_⟩
  apply String.ext
  have hchars : s.toList = (bs ++ '/' :: as).reverse := by rw [← hs, List.reverse_reverse]
  simp [hchars]

theorem slash_not_mem_of_extended {x z t : String} (hx : IsComponent x)
    (hname : Path.isFileName (x ++ z) = true)
    (hextended : Path.isFileName (x ++ z ++ "." ++ t) = true) : '/' ∉ z.toList := by
  intro hmem
  obtain ⟨a, b, hb, rfl⟩ := exists_last_slash hmem
  obtain ⟨_, hcount, hlast⟩ := isFileName_iff.mp hname
  have hcount' := (isFileName_iff.mp hextended).2.1
  have hfront : (Path.components (x ++ a)).length ≠ 0 := fun hnil =>
    components_ne_nil hx a (List.eq_nil_of_length_eq_zero hnil)
  rw [← String.append_assoc, ← String.append_assoc, components_append,
    List.length_append] at hcount
  rw [← String.append_assoc, ← String.append_assoc, String.append_assoc, String.append_assoc,
    components_append, List.length_append] at hcount'
  by_cases hempty : b = ""
  · subst hempty
    simp at hlast
  by_cases hdot : b = "."
  · subst hdot
    have hup : Path.components (".." ++ t) ≠ [] :=
      components_ne_nil (isComponent_iff.mpr (by decide)) t
    have hpos : (Path.components ("." ++ ("." ++ t))).length ≠ 0 := by
      rw [← String.append_assoc]
      exact fun hnil => hup (List.eq_nil_of_length_eq_zero hnil)
    omega
  · have hcomponent : IsComponent b := isComponent_iff.mpr ⟨hb, hempty, hdot⟩
    rw [show Path.components b = [b] from hcomponent, List.length_singleton] at hcount
    omega

/-- The outputs that every module may have, whatever its further extensions. -/
def mainPaths (a : Artifacts) : List Path :=
  [a.implementation, a.header, a.externs, a.foreignHeader, a.foreignImplementation]

def extendedNames (n : ModuleName) (config : Config) : List String :=
  [fileName n.baseName config.implExt, fileName n.baseName config.headerExt,
    fileName (n.baseName ++ config.mangle) config.headerExt,
    fileName (n.baseName ++ config.mangle) config.implExt]

/-- Header and implementation differ in what file names keep of their extensions, no foreign
name of the one is a plain name of the other, and the interface file leads to none of these. -/
structure HasOwnNames (p : Project) (n : ModuleName) (a : Artifacts) (current : Location) :
    Prop where
  extensions : fileExtension p.config.implExt ≠ fileExtension p.config.headerExt
  implementation : "." ++ fileExtension p.config.implExt ≠
    p.config.mangle ++ "." ++ fileExtension p.config.headerExt
  header : "." ++ fileExtension p.config.headerExt ≠
    p.config.mangle ++ "." ++ fileExtension p.config.implExt
  externs : ∀ f ∈ extendedNames n p.config,
    endOf current a.externs ≠ f :: endOf current a.directory

/-- No two of the paths lead to one place. -/
def LeadApart (current : Location) (paths : List Path) : Prop :=
  (paths.map (endOf current)).Nodup

section

variable {p : Project} {n : ModuleName} {a : Artifacts} {x : String} {e f : Extension}

theorem fileName_inj : fileName x e = fileName x f ↔ fileExtension e = fileExtension f := by
  simp [fileName]

theorem fileName_eq_mangled_iff {mangle : String} :
    fileName x e = fileName (x ++ mangle) f ↔
      "." ++ fileExtension e = mangle ++ "." ++ fileExtension f := by
  simp [fileName, String.append_assoc]

theorem fileName_ne_mangled {mangle : String} (h : mangle ≠ "") :
    fileName x e ≠ fileName (x ++ mangle) e := by
  intro heq
  have hlength := congrArg (fun s => s.toList.length) (fileName_eq_mangled_iff.mp heq)
  have hpos := length_pos_of_ne h
  simp only [String.toList_append, List.length_append] at hlength
  omega

theorem endOf_extended (hsegments : ∀ s ∈ n.segments, '/' ∉ s.toList)
    (ha : p.artifacts n = .ok a) (current : Location) :
    [a.implementation, a.header, a.foreignHeader, a.foreignImplementation].map (endOf current) =
      (extendedNames n p.config).map (· :: endOf current a.directory) := by
  obtain ⟨hname, hdirectory, houtputs⟩ := (artifacts_eq_ok_iff hsegments).mp ha
  have hbase : IsComponent n.baseName := components_of_isPlain (isPlain_baseName hsegments)
  obtain ⟨_, hextended, _⟩ := Path.withName_eq_ok_iff.mp houtputs.foreignHeader
  have hmangled : IsComponent (n.baseName ++ p.config.mangle) :=
    isComponent_append hbase (slash_not_mem_of_extended hbase hname
      (by simpa [Path.name?] using hextended))
  rw [hdirectory]
  simp only [List.map_cons, List.map_nil, extendedNames,
    endOf_addExtension current hbase houtputs.implementation,
    endOf_addExtension current hbase houtputs.header,
    endOf_addExtension current hmangled houtputs.foreignHeader,
    endOf_addExtension current hmangled houtputs.foreignImplementation]

theorem nodup_extendedNames_iff (n : ModuleName) (config : Config) :
    (extendedNames n config).Nodup ↔
      fileExtension config.implExt ≠ fileExtension config.headerExt ∧
      "." ++ fileExtension config.implExt ≠
        config.mangle ++ "." ++ fileExtension config.headerExt ∧
      "." ++ fileExtension config.headerExt ≠
        config.mangle ++ "." ++ fileExtension config.implExt := by
  have hne : ∀ ext, fileName n.baseName ext ≠ fileName (n.baseName ++ config.mangle) ext :=
    fun ext => fileName_ne_mangled config.mangle_ne
  simp only [extendedNames, List.nodup_cons, List.mem_cons, List.not_mem_nil, or_false, not_or,
    List.nodup_nil, fileName_inj, fileName_eq_mangled_iff, hne, ne_eq, not_false_eq_true]
  constructor
  · rintro ⟨⟨hextensions, himplementation⟩, ⟨_, hheader⟩, _⟩
    exact ⟨hextensions, himplementation, hheader⟩
  · rintro ⟨hextensions, himplementation, hheader⟩
    exact ⟨⟨hextensions, himplementation⟩, ⟨trivial, hheader⟩, Ne.symm hextensions, trivial,
      trivial⟩

theorem hasOwnNames_iff {current : Location} :
    HasOwnNames p n a current ↔ (extendedNames n p.config).Nodup ∧
      ∀ f ∈ extendedNames n p.config, endOf current a.externs ≠ f :: endOf current a.directory := by
  rw [nodup_extendedNames_iff]
  constructor
  · exact fun h => ⟨⟨h.extensions, h.implementation, h.header⟩, h.externs⟩
  · exact fun ⟨⟨hextensions, himplementation, hheader⟩, hexterns⟩ =>
      ⟨hextensions, himplementation, hheader, hexterns⟩

theorem leadApart_mainPaths_iff (hsegments : ∀ s ∈ n.segments, '/' ∉ s.toList)
    (ha : p.artifacts n = .ok a) (current : Location) :
    LeadApart current (mainPaths a) ↔ HasOwnNames p n a current := by
  have hperm : (mainPaths a).Perm (a.externs ::
      [a.implementation, a.header, a.foreignHeader, a.foreignImplementation]) :=
    show ([a.implementation, a.header] ++ a.externs ::
      [a.foreignHeader, a.foreignImplementation]).Perm _ from List.perm_middle
  have hends := endOf_extended hsegments ha current
  have hnames : ((extendedNames n p.config).map (· :: endOf current a.directory)).Nodup ↔
      (extendedNames n p.config).Nodup := by
    simp [List.Nodup, List.pairwise_map]
  unfold LeadApart
  rw [(hperm.map (endOf current)).nodup_iff, List.map_cons, hends, List.nodup_cons, hnames,
    hasOwnNames_iff, and_comm]
  simp [eq_comm]

theorem hasOwnNames_iff_nodup (hsegments : ∀ s ∈ n.segments, '/' ∉ s.toList)
    (ha : p.artifacts n = .ok a) (hexterns : IsPlain p.config.externsFile)
    (current : Location) :
    HasOwnNames p n a current ↔
      (p.config.externsFile :: extendedNames n p.config).Nodup := by
  obtain ⟨_, hdirectory, houtputs⟩ := (artifacts_eq_ok_iff hsegments).mp ha
  have hend : endOf current a.externs = p.config.externsFile :: endOf current a.directory := by
    rw [houtputs.externs, endOf_child current _ hexterns, hdirectory]
  rw [hasOwnNames_iff, List.nodup_cons, and_comm, hend]
  refine and_congr_left fun _ => ?_
  constructor
  · exact fun h hmem => h _ hmem rfl
  · exact fun h f hf heq => h ((List.cons.inj heq).1 ▸ hf)

/-- The main outputs of a module lead to different places just in case they have names of
their own, which for a plain name of the interface file means that the file names differ.
Then they are different paths, and once the module is written its primary outputs are files
and no two of the main outputs are one file. -/
theorem outputs_apart_iff (hsegments : ∀ s ∈ n.segments, '/' ∉ s.toList)
    (ha : p.artifacts n = .ok a) :
    (∀ current, (LeadApart current (mainPaths a) ↔ HasOwnNames p n a current) ∧
      (IsPlain p.config.externsFile → (HasOwnNames p n a current ↔
        (p.config.externsFile :: extendedNames n p.config).Nodup)) ∧
      (HasOwnNames p n a current → (mainPaths a).Nodup)) ∧
    ∀ m environment externs w b w', m.name = n →
      p.persist m environment externs w = .ok b w' → HasOwnNames p n a w.files.current →
        (∀ q ∈ a.primary, IsFile w'.files q) ∧
        (mainPaths a).Pairwise fun q r =>
          ∀ l, w'.files.resolve q = .ok l → w'.files.resolve r ≠ .ok l := by
  have hiff := leadApart_mainPaths_iff hsegments ha
  refine ⟨fun current => ⟨hiff current,
    fun hexterns => hasOwnNames_iff_nodup hsegments ha hexterns current, fun hnames => ?_⟩, ?_⟩
  · exact List.Pairwise.of_map (endOf current) (fun q r hne heq => hne (heq ▸ rfl))
      ((hiff current).mpr hnames)
  rintro m environment externs w b w' rfl hrun hnames
  obtain ⟨hb, hwritten⟩ := isWritten_of_persist hrun
  cases ha.symm.trans hb
  have hcurrent : w'.files.current = w.files.current :=
    ((within_persist_top p m environment externs).of_ok rfl hrun).files.current
  refine ⟨fun q hq => (hwritten q hq).isFile, ?_⟩
  refine (List.pairwise_map.mp ((hiff _).mpr hnames)).imp ?_
  intro q r hne l hq hr
  rw [← hcurrent, ← resolve_eq_endOf hq, ← resolve_eq_endOf hr] at hne
  exact hne rfl

end

theorem hasOwnNames_small :
    HasOwnNames smallProject alpha smallArtifacts smallTree.current where
  extensions := by decide
  implementation := by decide
  header := by decide
  externs := by decide +kernel

theorem outputs_apart_iff_small :
    (mainPaths smallArtifacts).Nodup ∧
      ∃ w', writeText "one line" smallWorkspace = .ok smallArtifacts w' ∧
        IsFile w'.files smallArtifacts.implementation ∧ IsFile w'.files smallArtifacts.header ∧
        ∀ l, w'.files.resolve smallArtifacts.implementation = .ok l →
          w'.files.resolve smallArtifacts.header ≠ .ok l := by
  obtain ⟨hpaths, hfiles⟩ := outputs_apart_iff (p := smallProject) (n := alpha) (by decide)
    artifacts_small
  have hrun := writeText_eq_ok (s := "one line") (by decide +kernel)
  obtain ⟨hprimary, hapart⟩ := hfiles _ _ _ _ _ _ rfl hrun hasOwnNames_small
  refine ⟨(hpaths smallTree.current).2.2 hasOwnNames_small, _, hrun,
    hprimary _ (by simp [Artifacts.primary]), hprimary _ (by simp [Artifacts.primary]), ?_⟩
  exact (List.pairwise_cons.mp hapart).1 _ List.mem_cons_self

def clashingConfig : Config :=
  { Config.default with headerExt := Config.default.implExt }

def clashingArtifacts : Artifacts :=
  { smallArtifacts with
    header := smallArtifacts.implementation
    foreignHeader := smallArtifacts.foreignImplementation }

theorem ofSettings_clashing : Config.ofSettings { headerExt := "cc" } = .ok clashingConfig :=
  rfl

theorem artifacts_clashing :
    { smallProject with config := clashingConfig }.artifacts alpha = .ok clashingArtifacts :=
  answers_iff.mp (by decide +kernel)

/-- That settings pass the check does not make the outputs of a module different paths. -/
theorem not_forall_outputs_apart :
    ¬ ∀ (settings : Settings) (p : Project) (n : ModuleName) (a : Artifacts),
      Config.ofSettings settings = .ok p.config → (∀ s ∈ n.segments, '/' ∉ s.toList) →
        p.artifacts n = .ok a → (mainPaths a).Nodup := by
  intro h
  have hpaths := h { headerExt := "cc" } { smallProject with config := clashingConfig } alpha
    clashingArtifacts ofSettings_clashing (by decide) artifacts_clashing
  exact absurd hpaths (by decide)

end Rebuild.Proofs.OutputNames
