import Rebuild.Proofs.Growth

namespace Rebuild.Proofs.TreeCalls

open Rebuild.FileTree
open Rebuild.Proofs.PathNormal
open Rebuild.Proofs.Lookup
open Rebuild.Proofs.Growth

theorem placeAt_eq_ok {t t' : FileTree} {p : Path} {e : Entry} (h : t.placeAt p e = .ok t') :
    ∃ l, t.resolve p = .ok l ∧ t.get? l ≠ some .directory ∧ t'.current = t.current ∧
      ∀ k, t'.get? k = if k = l then some e else t.get? k := by
  unfold placeAt at h
  split at h
  · cases h
  · cases h
  · rename_i name parent hp
    split at h
    · cases h
    · rename_i hfree
      cases h
      exact ⟨name :: parent, hp, hfree, rfl, fun k => get?_place t name parent e _ _ k⟩

theorem exists_placeAt {t : FileTree} {p : Path} {l : Location} (e : Entry)
    (hp : t.resolve p = .ok l) (hl : t.get? l ≠ some .directory) :
    ∃ t', t.placeAt p e = .ok t' := by
  unfold placeAt
  split
  · rename_i fault hp'
    rw [hp] at hp'
    cases hp'
  · rename_i hp'
    rw [hp] at hp'
    cases hp'
    exact absurd (get?_top t) hl
  · rename_i name parent hp'
    rw [hp] at hp'
    cases hp'
    exact ⟨_, dif_neg hl⟩

theorem placeAt_directory {t : FileTree} {p : Path} {l : Location} (e : Entry)
    (hp : t.resolve p = .ok l) (hl : t.get? l = some .directory) :
    t.placeAt p e = .error (.refused .isADirectory) := by
  unfold placeAt
  split
  · rename_i fault hp'
    rw [hp] at hp'
    cases hp'
  · rfl
  · rename_i name parent hp'
    rw [hp] at hp'
    cases hp'
    exact dif_pos hl

theorem placeAt_error {t : FileTree} {p : Path} {fault : AccessFault} (e : Entry)
    (hp : t.resolve p = .error fault) : t.placeAt p e = .error fault := by
  unfold placeAt
  split
  · rename_i fault' hp'
    rw [hp] at hp'
    cases hp'
    rfl
  · rename_i hp'
    simp [hp] at hp'
  · rename_i name parent hp'
    simp [hp] at hp'

theorem makeDir_eq_ok {t t' : FileTree} {p : Path} (h : t.makeDir p = .ok t') :
    ∃ l, t.resolve p = .ok l ∧ t.get? l = none ∧ t'.current = t.current ∧
      ∀ k, t'.get? k = if k = l then some .directory else t.get? k := by
  unfold makeDir at h
  cases hp : t.resolve p with
  | error fault => simp [hp, bind, Except.bind] at h
  | ok l =>
      simp only [hp, bind, Except.bind] at h
      split at h
      · cases h
      · rename_i hnone
        obtain ⟨l', hl', _, hcurrent, hview⟩ := placeAt_eq_ok h
        rw [hp] at hl'
        cases hl'
        exact ⟨l, rfl, by simpa using hnone, hcurrent, hview⟩

theorem exists_makeDir {t : FileTree} {p : Path} {l : Location} (hp : t.resolve p = .ok l)
    (hl : t.get? l = none) : ∃ t', t.makeDir p = .ok t' := by
  obtain ⟨t', ht'⟩ := exists_placeAt .directory hp (by simp [hl])
  exact ⟨t', by simp [makeDir, hp, hl, ht', bind, Except.bind]⟩

theorem makeDir_present {t : FileTree} {p : Path} {l : Location} (hp : t.resolve p = .ok l)
    (hl : t.get? l ≠ none) : t.makeDir p = .error (.refused .alreadyExists) := by
  simp [makeDir, hp, hl, bind, Except.bind]

theorem makeDir_error {t : FileTree} {p : Path} {fault : AccessFault}
    (hp : t.resolve p = .error fault) : t.makeDir p = .error fault := by
  simp [makeDir, hp, bind, Except.bind]

theorem acceptDir_eq_ok_iff {t : FileTree} {p : Path} {fault : AccessFault} :
    t.acceptDir p fault = .ok () ↔
      fault ≠ .embeddedNul ∧ ∃ l, t.resolve p = .ok l ∧ t.get? l = some .directory := by
  rw [← probe_eq_some_iff]
  unfold acceptDir
  cases fault with
  | embeddedNul => simp
  | refused f =>
      simp only [ne_eq, reduceCtorEq, not_false_eq_true, true_and]
      split
      · rename_i heq
        simp [heq]
      · rename_i hother
        simp only [reduceCtorEq, false_iff]
        exact fun heq => hother f rfl heq

section

variable {now : MTime} {D W : Location → Prop}

theorem evolves_of_makeDir {t t' : FileTree} {p : Path} (h : t.makeDir p = .ok t')
    (hD : ∀ l, t.resolve p = .ok l → D l) : Evolves now D W t t' := by
  obtain ⟨l, hp, hnone, hcurrent, hview⟩ := makeDir_eq_ok h
  refine ⟨hcurrent, fun k => ?_⟩
  rw [hview]
  split
  · rename_i heq
    exact .inr (.inl ⟨heq ▸ hD l hp, heq ▸ hnone, rfl⟩)
  · exact .inl rfl

theorem evolves_of_placeAt {t t' : FileTree} {p : Path} {content : ByteArray}
    (h : t.placeAt p (.file content now) = .ok t') (hW : ∀ l, t.resolve p = .ok l → W l) :
    Evolves now D W t t' := by
  obtain ⟨l, hp, hndir, hcurrent, hview⟩ := placeAt_eq_ok h
  refine ⟨hcurrent, fun k => ?_⟩
  rw [hview]
  split
  · rename_i heq
    exact .inr (.inr ⟨heq ▸ hW l hp, heq ▸ hndir, content, rfl⟩)
  · exact .inl rfl

end

theorem makeDir_of_below {t u : FileTree} {p : Path} {l : Location} (h : Below t u)
    (hp : u.resolve p = .ok l) (hl : u.get? l = some .directory) :
    (∃ t', t.makeDir p = .ok t' ∧ Below t' u) ∨
      (t.makeDir p = .error (.refused .alreadyExists) ∧
        t.acceptDir p (.refused .alreadyExists) = .ok ()) ∨
      t.resolve p = .error (.refused .notFound) := by
  cases hp' : t.resolve p with
  | error fault =>
      by_cases hfault : fault = .refused .notFound
      · exact .inr (.inr (congrArg Except.error hfault))
      · simp [resolve_error_below h hfault hp'] at hp
  | ok k =>
      have hkl : k = l := by simpa [resolve_below h hp'] using hp
      subst hkl
      cases hentry : t.get? k with
      | none =>
          obtain ⟨t', ht'⟩ := exists_makeDir hp' hentry
          obtain ⟨k', hk', _, hcurrent, hview⟩ := makeDir_eq_ok ht'
          have hkk : k' = k := by simpa [hp'] using hk'.symm
          subst hkk
          refine .inl ⟨t', ht', h.current.trans hcurrent.symm, ?_, ?_⟩
          · intro j hj
            rw [hview] at hj
            split at hj
            · rename_i heq
              exact heq ▸ hl
            · exact h.directory j hj
          · intro j content modified hj
            rw [hview] at hj
            split at hj
            · cases hj
            · exact h.file j content modified hj
      | some e =>
          cases e with
          | file content modified =>
              obtain ⟨content', modified', hfile⟩ := h.file k content modified hentry
              simp [hl] at hfile
          | directory =>
              exact .inr (.inl ⟨makeDir_present hp' (by simp [hentry]),
                acceptDir_eq_ok_iff.mpr ⟨by simp, k, hp', hentry⟩⟩)

theorem copy_eq_ok {t t' : FileTree} {source target : Path} {now : MTime}
    (h : t.copy source target now = .ok t') :
    ∃ content, t.read source = .ok content ∧ t.write target content now = .ok t' := by
  unfold copy at h
  split at h
  · cases h
  · split at h
    · cases h
    · cases hread : t.read source with
      | error fault => simp [hread, bind, Except.bind] at h
      | ok content => exact ⟨content, rfl, by simpa [hread, bind, Except.bind] using h⟩

end Rebuild.Proofs.TreeCalls
