import Rebuild.Proofs.Layout

namespace Rebuild.Proofs.FileNames

open Rebuild.Proofs.PathNormal
open Rebuild.Proofs.Steps
open Rebuild.Proofs.Layout

theorem splitChars_append (sep : Char) (cs ds : List Char) :
    Text.splitChars sep (cs ++ sep :: ds) = Text.splitChars sep cs ++ Text.splitChars sep ds := by
  induction cs with
  | nil => simp [Text.splitChars]
  | cons c cs ih =>
      simp only [List.cons_append, Text.splitChars, ih]
      split
      · rfl
      · cases hsplit : Text.splitChars sep cs with
        | nil => exact absurd hsplit (Text.splitChars_ne_nil sep cs)
        | cons piece pieces => rfl

theorem split_append (sep : Char) (a b : String) :
    Text.split sep (a ++ .singleton sep ++ b) = Text.split sep a ++ Text.split sep b := by
  have hchars : (a ++ .singleton sep ++ b).toList = a.toList ++ sep :: b.toList := by simp
  simp only [Text.split, hchars, splitChars_append, List.map_append]

theorem components_append (a b : String) :
    Path.components (a ++ "/" ++ b) = Path.components a ++ Path.components b := by
  have hsplit : Text.split '/' (a ++ "/" ++ b) = Text.split '/' a ++ Text.split '/' b :=
    split_append '/' a b
  simp only [Path.components, hsplit, List.filter_append]

theorem exists_of_slash {s : String} (h : '/' ∈ s.toList) :
    ∃ a b, '/' ∉ a.toList ∧ s = a ++ "/" ++ b := by
  obtain ⟨as, bs, hs, has⟩ := List.eq_append_cons_of_mem h
  refine ⟨.ofList as, .ofList bs, by simpa using has, ?_⟩
  apply String.ext
  simp [hs]

theorem isComponent_of_length {s : String} (hslash : '/' ∉ s.toList)
    (h : 1 < s.toList.length) : IsComponent s := by
  refine isComponent_iff.mpr ⟨hslash, ?_, ?_⟩
  · rintro rfl
    simp at h
  · rintro rfl
    simp at h

theorem length_pos_of_ne {s : String} (h : s ≠ "") : 0 < s.toList.length :=
  List.length_pos_iff.mpr (by simpa using h)

theorem isComponent_append {x z : String} (hx : IsComponent x) (hz : '/' ∉ z.toList) :
    IsComponent (x ++ z) := by
  obtain ⟨hslash, hne, _⟩ := isComponent_iff.mp hx
  by_cases hempty : z = ""
  · simpa [hempty] using hx
  · apply isComponent_of_length (by simp [hslash, hz])
    have hx' := length_pos_of_ne hne
    have hz' := length_pos_of_ne hempty
    simp only [String.toList_append, List.length_append]
    omega

theorem components_ne_nil {x : String} (hx : IsComponent x) (z : String) :
    Path.components (x ++ z) ≠ [] := by
  by_cases hz : '/' ∈ z.toList
  · obtain ⟨a, b, ha, rfl⟩ := exists_of_slash hz
    rw [← String.append_assoc, ← String.append_assoc, components_append]
    simp [show Path.components (x ++ a) = [x ++ a] from isComponent_append hx ha]
  · simp [show Path.components (x ++ z) = [x ++ z] from isComponent_append hx hz]

theorem isFileName_iff {s : String} :
    Path.isFileName s = true ↔
      Path.rootOf s = .relative ∧ (Path.components s).length = 1 ∧
        s.toList.getLast? ≠ some '/' := by
  simp [Path.isFileName, and_assoc]

theorem exists_component_of_isFileName {s : String} (h : Path.isFileName s = true) :
    ∃ f, Path.components s = [f] ∧ IsComponent f := by
  obtain ⟨f, hf⟩ := List.length_eq_one_iff.mp (isFileName_iff.mp h).2.1
  exact ⟨f, hf, components_of_mem_components (s := s) (by simp [hf])⟩

theorem rootOf_append {y : String} (hslash : '/' ∉ y.toList) (hne : y ≠ "") (z : String) :
    Path.rootOf (y ++ z) = .relative := by
  cases hy : y.toList with
  | nil => exact absurd (by simpa using hy) hne
  | cons c cs =>
      have hc : ¬ c = '/' := fun heq => hslash (by simp [hy, heq])
      simp [Path.rootOf, hy, hc]

theorem isFileName_extend {x y z : String} {ext : Extension} (hx : IsComponent x)
    (hslash : '/' ∉ y.toList) (hne : y ≠ "")
    (h : Path.isFileName (x ++ z ++ "." ++ ext.text) = true) :
    Path.isFileName (y ++ "." ++ ext.text) = true := by
  obtain ⟨_, hcount, hlast⟩ := isFileName_iff.mp h
  have hext : ext.text.toList ≠ [] := by simpa using ext.text_ne
  have hself : ∀ u : String, '/' ∉ u.toList →
      Path.components (y ++ "." ++ u) = [y ++ "." ++ u] := by
    intro u hu
    apply isComponent_of_length (by simp [hslash, hu])
    have hy := length_pos_of_ne hne
    simp only [String.toList_append, List.length_append, String.reduceToList, List.length_singleton]
    omega
  have hend : ∀ cs : List Char,
      (cs ++ ext.text.toList).getLast? = ext.text.toList.getLast? := by
    intro cs
    rw [List.getLast?_append]
    cases hl : ext.text.toList.getLast? with
    | none => exact absurd (List.getLast?_eq_none_iff.mp hl) hext
    | some c => rfl
  refine isFileName_iff.mpr ⟨?_, ?_, ?_⟩
  · rw [String.append_assoc]
    exact rootOf_append hslash hne _
  · by_cases hmem : '/' ∈ ext.text.toList
    · obtain ⟨a, b, ha, heq⟩ := exists_of_slash hmem
      rw [heq, ← String.append_assoc, ← String.append_assoc, components_append,
        List.length_append] at hcount ⊢
      have hfront : (Path.components (x ++ z ++ "." ++ a)).length ≠ 0 := by
        rw [String.append_assoc, String.append_assoc]
        exact fun hnil => components_ne_nil hx _ (List.eq_nil_of_length_eq_zero hnil)
      rw [hself a ha, List.length_singleton]
      omega
    · simp [hself _ hmem]
  · rw [String.toList_append, hend] at hlast ⊢
    exact hlast

theorem isFileName_of_addExtension {q r : Path} {x : String} {ext : Extension}
    (hx : q.name? = some x) (h : q.addExtension ext = .ok r) :
    Path.isFileName (x ++ "." ++ ext.text) = true := by
  obtain ⟨_, hname, _⟩ := Path.withName_eq_ok_iff.mp h
  simpa [hx] using hname

theorem exists_addExtensions {q : Path} {exts : List Extension}
    (h : ∀ ext ∈ exts, ∃ r, q.addExtension ext = .ok r) :
    ∃ found, q.addExtensions exts = .ok found := by
  suffices ∃ pairs, (exts.mapM fun ext => return (ext, ← q.addExtension ext) :
      Except Path.NameFault (List (Extension × Path))) = .ok pairs by
    obtain ⟨pairs, hpairs⟩ := this
    exact ⟨.ofList pairs, except_bind_eq_ok_iff.mpr ⟨pairs, hpairs, rfl⟩⟩
  induction exts with
  | nil => exact ⟨[], rfl⟩
  | cons ext exts ih =>
      obtain ⟨r, hr⟩ := h ext (by simp)
      obtain ⟨pairs, hpairs⟩ := ih fun e he => h e (List.mem_cons_of_mem ext he)
      refine ⟨(ext, r) :: pairs, ?_⟩
      rw [List.mapM_cons, except_bind_eq_ok_iff]
      refine ⟨(ext, r), except_bind_eq_ok_iff.mpr ⟨r, hr, rfl⟩, ?_⟩
      exact except_bind_eq_ok_iff.mpr ⟨pairs, hpairs, rfl⟩

section

variable {p : Project} {n : ModuleName} {a : Artifacts}

theorem extended_of_artifacts (ha : p.artifacts n = .ok a) :
    ∀ ext ∈ p.config.companionExts, ∃ x z, IsComponent x ∧
      Path.isFileName (x ++ z ++ "." ++ ext.text) = true := by
  replace ha := mapError_eq_ok_iff.mp ha
  unfold Artifacts.ofModule at ha
  simp only [except_bind_eq_ok_iff] at ha
  obtain ⟨mangled, hm, implementation, hi, header, hh, _, _, _, _, others, ho, _⟩ := ha
  have hbase : IsNormal ((p.output.normalize ++ n.relativeDir).child n.baseName) :=
    isNormal_child (isNormal_append (isNormal_normalize p.output)
      (isNormal_ofSegments n.segments)) n.baseName
  obtain ⟨hnamed, _, rfl⟩ := Path.withName_eq_ok_iff.mp hm
  obtain ⟨x, hx⟩ := Option.ne_none_iff_exists'.mp hnamed
  have hcomponent := isComponent_of_name? hbase hx
  simp only [hx, Option.getD_some] at ho
  have hplain : ∀ {ext : Extension} {q : Path},
      ((p.output.normalize ++ n.relativeDir).child n.baseName).addExtension ext = .ok q →
        ∃ x z, IsComponent x ∧ Path.isFileName (x ++ z ++ "." ++ ext.text) = true :=
    fun h => ⟨x, "", hcomponent, by simpa using isFileName_of_addExtension hx h⟩
  intro ext hext
  simp only [Config.companionExts, List.mem_cons] at hext
  rcases hext with rfl | rfl | hext
  · exact hplain hi
  · exact hplain hh
  · obtain ⟨pairs, _, hkeys, hvariants⟩ := pairs_of_addExtensions ho
    obtain ⟨pair, hpair, rfl⟩ := List.mem_map.mp (hkeys ▸ hext)
    refine ⟨x, p.config.mangle, hcomponent, ?_⟩
    exact isFileName_of_addExtension (by simp [Path.name?]) (hvariants pair hpair)

theorem exists_directory_of_artifacts (ha : p.artifacts n = .ok a) :
    ∃ d : Path, d.normalize = d ∧ ∀ q ∈ foreignPaths a,
      ∃ f, IsComponent f ∧ q.normalize = ⟨d.root, d.parts ++ [f]⟩ := by
  replace ha := mapError_eq_ok_iff.mp ha
  unfold Artifacts.ofModule at ha
  simp only [except_bind_eq_ok_iff] at ha
  obtain ⟨mangled, hm, _, _, _, _, foreignHeader, hfh, foreignImplementation, hfi, others, ho,
    ha⟩ := ha
  cases ha
  have hbase : IsNormal ((p.output.normalize ++ n.relativeDir).child n.baseName) :=
    isNormal_child (isNormal_append (isNormal_normalize p.output)
      (isNormal_ofSegments n.segments)) n.baseName
  generalize (p.output.normalize ++ n.relativeDir).child n.baseName = base at hbase hm
  obtain ⟨_, _, rfl⟩ := Path.withName_eq_ok_iff.mp hm
  have hdirectory : IsNormal ⟨base.root, base.parts.dropLast⟩ :=
    isNormal_of_subset hbase fun _ hpart => List.dropLast_subset _ hpart
  have hextended : ∀ {ext : Extension} {q : Path}, Path.addExtension
      ⟨base.root, base.parts.dropLast ++ [base.name?.getD "" ++ p.config.mangle]⟩ ext = .ok q →
        ∃ f, IsComponent f ∧ q.normalize = ⟨base.root, base.parts.dropLast ++ [f]⟩ := by
    intro ext q hq
    obtain ⟨_, hname, rfl⟩ := Path.withName_eq_ok_iff.mp hq
    obtain ⟨f, hf, hcomponent⟩ := exists_component_of_isFileName hname
    have hparts : base.parts.dropLast.flatMap Path.components = base.parts.dropLast :=
      (Path.mk.inj (normalize_eq_self hdirectory)).2
    exact ⟨f, hcomponent, by simp [Path.normalize, hparts, hf]⟩
  refine ⟨⟨base.root, base.parts.dropLast⟩, normalize_eq_self hdirectory, ?_⟩
  intro q hq
  simp only [foreignPaths, List.mem_cons] at hq
  rcases hq with rfl | rfl | hq
  · exact hextended hfh
  · exact hextended hfi
  · obtain ⟨ext, _, hadd⟩ := addExtension_of_mem_addExtensions ho hq
    exact hextended hadd

theorem exists_companions (ha : p.artifacts n = .ok a) {source : Path}
    (hsource : source.normalize.parts ≠ []) :
    ∃ found, companions source p.config = .ok found := by
  obtain ⟨name, hname⟩ : ∃ name, source.normalize.name? = some name :=
    Option.ne_none_iff_exists'.mp (by simpa [Path.name?] using hsource)
  have hbase : source.normalize.withoutExtension =
      .ok ⟨source.normalize.root, source.normalize.parts.dropLast ++ [Path.stem name]⟩ := by
    simp [Path.withoutExtension, hname]
  obtain ⟨hslash, hne⟩ := stem_of_isComponent
    (isComponent_of_name? (isNormal_normalize source) hname)
  have hvariants : ∀ ext ∈ p.config.companionExts, ∃ q, Path.addExtension
      ⟨source.normalize.root, source.normalize.parts.dropLast ++ [Path.stem name]⟩ ext = .ok q := by
    intro ext hext
    obtain ⟨x, z, hx, hextended⟩ := extended_of_artifacts ha ext hext
    refine ⟨_, Path.withName_eq_ok_iff.mpr ⟨by simp [Path.name?], ?_, rfl⟩⟩
    simpa [Path.name?] using isFileName_extend hx hslash hne hextended
  obtain ⟨found, hfound⟩ := exists_addExtensions hvariants
  exact ⟨found, except_bind_eq_ok_iff.mpr ⟨_, hbase, hfound⟩⟩

end

end Rebuild.Proofs.FileNames
