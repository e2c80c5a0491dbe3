import Rebuild.Proofs.FileNames
import Rebuild.Proofs.Runs

namespace Rebuild.Proofs.ModuleLayouts

open Rebuild.Proofs.PathNormal
open Rebuild.Proofs.Steps
open Rebuild.Proofs.Layout
open Rebuild.Proofs.FileNames
open Rebuild.Proofs.Runs

theorem isFileName_of_isComponent {s : String} (h : IsComponent s) :
    Path.isFileName s = true := by
  have hslash := (isComponent_iff.mp h).1
  refine isFileName_iff.mpr ⟨rootOf_of_no_slash hslash, ?_, ?_⟩
  · rw [show Path.components s = [s] from h, List.length_singleton]
  · exact fun hlast => hslash (List.mem_of_getLast? hlast)

theorem exists_addExtension {q : Path} {x : String} {ext : Extension} (hq : q.name? = some x)
    (hx : IsComponent x) (hext : '/' ∉ ext.text.toList) : ∃ r, q.addExtension ext = .ok r := by
  have hname : IsComponent (x ++ "." ++ ext.text) := by
    rw [String.append_assoc]
    exact isComponent_append hx (by simp [hext])
  refine ⟨_, Path.withName_eq_ok_iff.mpr ⟨by simp [hq], ?_, rfl⟩⟩
  simpa [hq] using isFileName_of_isComponent hname

section

variable {p : Project} {m n : ModuleName}

theorem exists_artifacts (hconfig : NamesFiles p.config)
    (hsegments : ∀ s ∈ n.segments, '/' ∉ s.toList) : ∃ a, p.artifacts n = .ok a := by
  have hbase : IsComponent n.baseName := components_of_isPlain (isPlain_baseName hsegments)
  have hmangled : IsComponent (n.baseName ++ p.config.mangle) :=
    isComponent_append hbase hconfig.mangle
  have hextended : ∀ x, IsComponent x → ∀ ext ∈ p.config.companionExts, ∃ r,
      Path.addExtension ⟨(homeOf p n).root, (homeOf p n).parts ++ [x]⟩ ext = .ok r :=
    fun x hx ext hext =>
      exists_addExtension (by simp [Path.name?]) hx (hconfig.extensions ext hext).2.2.2
  have himpl : p.config.implExt ∈ p.config.companionExts := by simp [Config.companionExts]
  have hheader : p.config.headerExt ∈ p.config.companionExts := by simp [Config.companionExts]
  obtain ⟨implementation, hi⟩ := hextended _ hbase _ himpl
  obtain ⟨header, hh⟩ := hextended _ hbase _ hheader
  obtain ⟨foreignHeader, hfh⟩ := hextended _ hmangled _ hheader
  obtain ⟨foreignImplementation, hfi⟩ := hextended _ hmangled _ himpl
  obtain ⟨others, ho⟩ := exists_addExtensions fun ext (hext : ext ∈ p.config.otherExts) =>
    hextended _ hmangled ext (by simp [Config.companionExts, hext])
  exact ⟨⟨homeOf p n, implementation, header, (homeOf p n).child p.config.externsFile,
    foreignHeader, foreignImplementation, others⟩,
    (artifacts_eq_ok_iff hsegments).mpr
      ⟨isFileName_of_isComponent hmangled, rfl, hi, hh, rfl, hfh, hfi, ho⟩⟩

theorem directory_of_artifacts {a : Artifacts} (hsegments : ∀ s ∈ n.segments, '/' ∉ s.toList)
    (ha : p.artifacts n = .ok a) : a.directory = homeOf p n :=
  ((artifacts_eq_ok_iff hsegments).mp ha).2.1

/-- The directory of the module follows its segments below the output root, and each of its
outputs is a file of that directory. -/
structure FollowsSegments (p : Project) (n : ModuleName) (a : Artifacts) : Prop where
  directory : a.directory = ⟨p.output.root, p.output.normalize.parts ++ n.segments⟩
  files : ∀ q ∈ a.all, ∃ f, IsPlain f ∧
    q = ⟨p.output.root, p.output.normalize.parts ++ n.segments ++ [f]⟩

/-- The first path is the second or a directory above it. -/
def IsAtOrAbove (q r : Path) : Prop :=
  q.root = r.root ∧ q.parts <+: r.parts

/-- No output of the first module is an output or the directory of the second, nor a directory
above one. -/
def KeepsOutOf (a b : Artifacts) : Prop :=
  ∀ q ∈ a.all, ∀ r ∈ b.directory :: b.all, ¬ IsAtOrAbove q r

/-- A file whose name holds a dot is not on the way to a directory of segments, nor to a file
of it unless it is in that directory itself. -/
theorem segments_eq_of_leads {root : List String} {f : String} {r : List String}
    (hdot : '.' ∈ f.toList) (hr : r = root ++ n.segments ∨ ∃ g, r = root ++ n.segments ++ [g])
    (h : root ++ m.segments ++ [f] <+: r) : m.segments = n.segments := by
  have hsegment : ¬ root ++ m.segments ++ [f] <+: root ++ n.segments := by
    intro hprefix
    rw [List.append_assoc, List.prefix_append_right_inj] at hprefix
    have hf : f ∈ n.segments := hprefix.subset (by simp)
    exact not_mem_of_mem_split hf hdot
  rcases hr with rfl | ⟨g, rfl⟩
  · exact absurd h hsegment
  · rcases List.prefix_concat_iff.mp h with heq | hprefix
    · exact List.append_cancel_left (List.append_inj_left' heq rfl)
    · exact absurd hprefix hsegment

theorem keepsOutOf {a b : Artifacts} (hconfig : NamesFiles p.config)
    (hexterns : '.' ∈ p.config.externsFile.toList) (hne : m ≠ n)
    (hm : ∀ s ∈ m.segments, '/' ∉ s.toList) (hn : ∀ s ∈ n.segments, '/' ∉ s.toList)
    (ha : p.artifacts m = .ok a) (hb : p.artifacts n = .ok b) : KeepsOutOf a b := by
  rintro q hq r hr ⟨_, hprefix⟩
  obtain ⟨f, _, hdotted, rfl⟩ := named_of_artifacts hconfig hm ha q hq
  have hdot : '.' ∈ f.toList := hdotted.elim id fun heq => heq ▸ hexterns
  refine hne (segments_injective (segments_eq_of_leads hdot ?_ hprefix))
  rcases List.mem_cons.mp hr with rfl | hr
  · left
    rw [directory_of_artifacts hn hb]
    rfl
  · obtain ⟨g, _, _, rfl⟩ := named_of_artifacts hconfig hn hb r hr
    exact .inr ⟨g, rfl⟩

theorem followsSegments {a : Artifacts} (hconfig : NamesFiles p.config)
    (hn : ∀ s ∈ n.segments, '/' ∉ s.toList) (ha : p.artifacts n = .ok a) :
    FollowsSegments p n a := by
  refine ⟨directory_of_artifacts hn ha, fun q hq => ?_⟩
  obtain ⟨f, hf, _, heq⟩ := named_of_artifacts hconfig hn ha q hq
  exact ⟨f, hf, heq⟩

/-- Two texts that name different modules: both modules have outputs, each in the directory of
its segments, and none of either is on the way to the other's. -/
theorem outputs_keep_out {s t : String} (hconfig : NamesFiles p.config)
    (hexterns : '.' ∈ p.config.externsFile.toList) (hs : ModuleName.parse s = .ok m)
    (ht : ModuleName.parse t = .ok n) (hne : Text.strip s ≠ Text.strip t)
    (hm : ∀ x ∈ m.segments, '/' ∉ x.toList) (hn : ∀ x ∈ n.segments, '/' ∉ x.toList) :
    ∃ a b, p.artifacts m = .ok a ∧ p.artifacts n = .ok b ∧
      FollowsSegments p m a ∧ FollowsSegments p n b ∧ KeepsOutOf a b ∧ KeepsOutOf b a := by
  have hdifferent : m ≠ n := by
    rintro rfl
    exact hne ((ModuleName.text_of_parse hs).symm.trans (ModuleName.text_of_parse ht))
  obtain ⟨a, ha⟩ := exists_artifacts hconfig hm
  obtain ⟨b, hb⟩ := exists_artifacts hconfig hn
  exact ⟨a, b, ha, hb, followsSegments hconfig hm ha, followsSegments hconfig hn hb,
    keepsOutOf hconfig hexterns hdifferent hm hn ha hb,
    keepsOutOf hconfig hexterns hdifferent.symm hn hm hb ha⟩

end

def inner : ModuleName := ⟨"A.B", by decide, by decide⟩

def innerForeign : ModuleName := ⟨"A.B_ffi", by decide, by decide⟩

theorem outputs_keep_out_small :
    (∃ a b, smallProject.artifacts alpha = .ok a ∧ smallProject.artifacts inner = .ok b ∧
      KeepsOutOf a b ∧ KeepsOutOf b a) ∧
    ∃ a b, smallProject.artifacts inner = .ok a ∧ smallProject.artifacts innerForeign = .ok b ∧
      KeepsOutOf a b ∧ KeepsOutOf b a := by
  have hconfig := isLaidOut_small.config
  obtain ⟨a, b, ha, hb, _, _, hab, hba⟩ := outputs_keep_out hconfig.namesFiles
    hconfig.externs_dot (show ModuleName.parse " A" = .ok alpha from rfl)
    (show ModuleName.parse "A.B " = .ok inner from rfl) (by decide) (by decide) (by decide)
  obtain ⟨a', b', ha', hb', _, _, hab', hba'⟩ := outputs_keep_out hconfig.namesFiles
    hconfig.externs_dot (show ModuleName.parse "A.B" = .ok inner from rfl)
    (show ModuleName.parse "A.B_ffi" = .ok innerForeign from rfl) (by decide) (by decide)
    (by decide)
  exact ⟨⟨a, b, ha, hb, hab, hba⟩, a', b', ha', hb', hab', hba'⟩

end Rebuild.Proofs.ModuleLayouts
