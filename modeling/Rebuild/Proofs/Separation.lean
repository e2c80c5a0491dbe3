import Rebuild.Proofs.Agreement
import Rebuild.Proofs.Layout

namespace Rebuild.Proofs.Separation

open Rebuild.FileTree
open Rebuild.Proofs.PathNormal
open Rebuild.Proofs.Lookup
open Rebuild.Proofs.Growth
open Rebuild.Proofs.Layout
open Rebuild.Proofs.Agreement

/-- The places that the rebuild of a module looks at, the support files apart. -/
def Concerns (p : Project) (current : Location) (n : ModuleName) (l : Location) : Prop :=
  ¬ placeFrom current p.output <:+ l ∨ l <:+ home p current n ∨
    IsOutput p current n l

variable {p : Project} {names : List ModuleName} {current : Location} {m n : ModuleName}
variable {l : Location}

theorem suffix_cases {j k : Location} (hj : j <:+ l) (hk : k <:+ l) : j <:+ k ∨ k <:+ j := by
  rcases Nat.le_total j.length k.length with hle | hle
  · exact .inl (List.suffix_of_suffix_length_le hj hk hle)
  · exact .inr (List.suffix_of_suffix_length_le hk hj hle)

theorem not_cons_suffix_home {f : String} (hdot : '.' ∈ f.toList) (j : Location)
    (hj : placeFrom current p.output <:+ j) : ¬ f :: j <:+ home p current n := by
  rintro ⟨more, hmore⟩
  obtain ⟨between, rfl⟩ := hj
  have hsegments : more ++ f :: between = n.segments.reverse := by
    apply (List.append_left_inj (placeFrom current p.output)).mp
    simpa [home] using hmore
  have hf : f ∈ n.segments := by
    rw [← List.mem_reverse, ← hsegments]
    simp
  exact not_mem_of_mem_split hf hdot

theorem not_supportHome_suffix_home (h : IsLaidOut p names current)
    (hn : n ∈ names) : ¬ supportHome p current <:+ home p current n := by
  rintro ⟨more, hmore⟩
  have hsegments : more ++ [p.config.supportDir] = n.segments.reverse := by
    apply (List.append_left_inj (placeFrom current p.output)).mp
    simpa [home, supportHome] using hmore
  apply h.support n hn
  rw [← List.reverse_reverse n.segments, ← hsegments]
  simp

theorem not_cons_home_suffix_supportHome (f : String) :
    ¬ f :: home p current n <:+ supportHome p current := by
  intro hsuffix
  have hlength := hsuffix.length_le
  have hsegments : n.segments.length ≠ 0 := by
    simpa using List.ne_nil_of_mem (baseName_mem_segments n)
  simp only [home, supportHome, List.length_cons, List.length_append, List.length_reverse]
    at hlength
  omega

theorem output_suffix_supportHome (p : Project) (current : Location) :
    placeFrom current p.output <:+ supportHome p current :=
  List.suffix_cons _ _

theorem suffix_home_of_makes (hl : Concerns p current m l) (hmakes : Makes p current n l) :
    l <:+ home p current m := by
  rcases hl with houtside | hhome | ⟨f, hdot, rfl⟩
  · have hout : l <:+ placeFrom current p.output := by
      rcases hmakes with hl | hl
      · exact (suffix_cases hl (output_suffix_home p current n)).resolve_right houtside
      · exact (suffix_cases hl (output_suffix_supportHome p current)).resolve_right houtside
    exact hout.trans (output_suffix_home p current m)
  · exact hhome
  · rcases hmakes with hl | hl
    · exact absurd hl (not_cons_suffix_home hdot _ (output_suffix_home p current m))
    · exact absurd hl (not_cons_home_suffix_supportHome f)

theorem not_support_of_concerns (h : IsLaidOut p names current) (hm : m ∈ names)
    (hl : Concerns p current m l) : ¬ supportHome p current <:+ l := by
  intro hsupport
  rcases hl with houtside | hhome | ⟨f, _, rfl⟩
  · exact houtside ((output_suffix_supportHome p current).trans hsupport)
  · exact not_supportHome_suffix_home h hm (hsupport.trans hhome)
  · rcases List.suffix_cons_iff.mp hsupport with heq | hhome
    · have hsuffix : f :: home p current m <:+ supportHome p current := ⟨[], heq.symm⟩
      exact not_cons_home_suffix_supportHome f hsuffix
    · exact not_supportHome_suffix_home h hm hhome

/-- Nothing that concerns a module is written for another one. -/
theorem not_writes_of_concerns (h : IsLaidOut p names current) (hm : m ∈ names)
    (hne : m ≠ n) (hl : Concerns p current m l) : ¬ Writes p current n l := by
  rintro (⟨f, hdot, rfl⟩ | ⟨file, _, heq⟩)
  · rcases hl with houtside | hhome | ⟨f', _, heq⟩
    · exact houtside ((output_suffix_home p current n).trans (List.suffix_cons _ _))
    · exact not_cons_suffix_home hdot _ (output_suffix_home p current n) hhome
    · exact hne (home_injective (List.cons.inj heq).2).symm
  · exact not_support_of_concerns h hm hl (heq ▸ List.suffix_cons _ _)

theorem concerns_or_support (hl : Makes p current n l ∨ Writes p current n l) :
    Concerns p current n l ∨ supportHome p current <:+ l := by
  rcases hl with (hhome | hsupport) | houtput | ⟨file, _, rfl⟩
  · exact .inl (.inr (.inl hhome))
  · rcases List.suffix_cons_iff.mp hsupport with rfl | hout
    · exact .inr (List.suffix_refl _)
    · exact .inl (.inr (.inl (hout.trans (output_suffix_home p current n))))
  · exact .inl (.inr (.inr houtput))
  · exact .inr (List.suffix_cons _ _)

section

variable {now : MTime} {t t' : FileTree}

theorem entry_eq_of_evolves (h : IsLaidOut p names current) (hm : m ∈ names)
    (hne : m ≠ n) (ht : Evolves now (Makes p current n) (Writes p current n) t t')
    (hl : Concerns p current m l) (haway : ¬ l <:+ home p current m) :
    t'.get? l = t.get? l :=
  ht.entry_eq (fun hmakes => haway (suffix_home_of_makes hl hmakes))
    (not_writes_of_concerns h hm hne hl)

theorem agree_of_evolves (h : IsLaidOut p names current) (hm : m ∈ names)
    (hne : m ≠ n) (ht : Evolves now (Makes p current n) (Writes p current n) t t')
    (hdir : t.get? (home p current m) = some .directory) :
    Agree (Concerns p current m) t t' := by
  refine ⟨ht.current, fun l hl => ?_⟩
  by_cases hhome : l <:+ home p current m
  · have hldir := directory_of_suffix hhome hdir
    rw [hldir, ht.directory hldir]
  · exact entry_eq_of_evolves h hm hne ht hl hhome

end

theorem leadsIn_of_artifacts (h : IsLaidOut p names current) (hn : n ∈ names)
    {a : Artifacts} (ha : p.artifacts n = .ok a) {q : Path} (hq : q ∈ a.all) :
    LeadsIn (Concerns p current n) current q := by
  obtain ⟨hstraight, _, f, hdot, hplace⟩ := h.place_of_artifacts hn ha hq
  refine ⟨hstraight, fun l hl => ?_⟩
  rw [hplace] at hl
  rcases List.suffix_cons_iff.mp hl with rfl | hl
  · exact .inr (.inr ⟨f, hdot, rfl⟩)
  · exact .inr (.inl hl)

theorem leadsIn_of_inputs (h : IsLaidOut p names current) (hn : n ∈ names)
    {source : Path} (hsource : p.modules.locate n = .ok (.file source)) {inputs : List Path}
    (hinputs : p.inputs source = .ok inputs) {i : Path} (hi : i ∈ inputs) :
    LeadsIn (Concerns p current n) current i := by
  obtain ⟨hstraight, haway⟩ := h.sources n hn source hsource
  obtain ⟨found, hfound, heq⟩ := except_bind_eq_ok_iff.mp hinputs
  cases heq
  have hbeside : ∀ l, l <:+ placeFrom current source → Concerns p current n l :=
    fun l hl => .inl fun hout => haway (hout.trans hl)
  rcases List.mem_cons.mp hi with rfl | hi
  · exact ⟨hstraight, hbeside⟩
  · have hfile := isFileIn_of_companions h.config.extensions (mapError_eq_ok_iff.mp hfound) i hi
    obtain ⟨f, _, hplace⟩ := hfile.place current
    have hparent := placeFrom_parent_suffix current source
    refine ⟨hfile.isStraight (isStraight_parent hstraight), fun l hl => ?_⟩
    rw [hplace] at hl
    rcases List.suffix_cons_iff.mp hl with rfl | hl
    · -- a companion may be named like the output root, but lies nowhere below it
      by_cases hout : placeFrom current p.output <:+ f :: placeFrom current source.normalize.parent
      · rcases List.suffix_cons_iff.mp hout with heq | hout
        · exact .inr (.inl (heq ▸ output_suffix_home p current n))
        · exact absurd (hout.trans hparent) haway
      · exact .inl hout
    · exact hbeside l (hl.trans hparent)

theorem not_writes_of_leadsIn (h : IsLaidOut p names current) (hm : m ∈ names) (hne : m ≠ n)
    {q : Path} (hq : LeadsIn (Concerns p current m) current q) :
    ¬ Writes p current n (placeFrom current q) :=
  not_writes_of_concerns h hm hne (hq.places _ (List.suffix_refl _))

end Rebuild.Proofs.Separation
