import Rebuild.FileTree.Access
import Rebuild.Proofs.Lookup

/-!
How a tree may change while files are written to it. Nothing is taken away:
directories stay, files stay files, and what differs is a new directory or a
file written at the time of the build.
-/

namespace Rebuild.Proofs.Growth

open Rebuild.FileTree
open Rebuild.Proofs.PathNormal
open Rebuild.Proofs.Lookup

/-- The second tree has every entry of the first, of the same kind. -/
structure Below (t t' : FileTree) : Prop where
  current : t'.current = t.current
  directory : ∀ l, t.get? l = some .directory → t'.get? l = some .directory
  file : ∀ l content modified, t.get? l = some (.file content modified) →
    ∃ content' modified', t'.get? l = some (.file content' modified')

theorem Below.refl (t : FileTree) : Below t t :=
  ⟨rfl, fun _ h => h, fun _ content modified h => ⟨content, modified, h⟩⟩

theorem Below.trans {t u v : FileTree} (h : Below t u) (h' : Below u v) : Below t v := by
  refine ⟨h'.current.trans h.current, fun l hl => h'.directory l (h.directory l hl), ?_⟩
  intro l content modified hl
  obtain ⟨content', modified', hl'⟩ := h.file l content modified hl
  exact h'.file l content' modified' hl'

theorem Below.of_entries {t u v z : FileTree} (hu : Below u z) (hv : Below v z)
    (hcurrent : t.current = u.current)
    (hentry : ∀ l, t.get? l = u.get? l ∨ t.get? l = v.get? l) : Below t z := by
  refine ⟨hu.current.trans hcurrent.symm, fun l hl => ?_, fun l content modified hl => ?_⟩
  · rcases hentry l with hsame | hsame
    · exact hu.directory l (hsame.symm.trans hl)
    · exact hv.directory l (hsame.symm.trans hl)
  · rcases hentry l with hsame | hsame
    · exact hu.file l content modified (hsame.symm.trans hl)
    · exact hv.file l content modified (hsame.symm.trans hl)

theorem walk_below {t t' : FileTree} (h : Below t t') {place l : Location}
    {names : List String} (hwalk : t.walk place names = .ok l) :
    t'.walk place names = .ok l := by
  induction names generalizing place with
  | nil => exact hwalk
  | cons name names ih =>
      cases hentry : t.get? place with
      | none => simp [walk, hentry] at hwalk
      | some e =>
          cases e with
          | file content modified => simp [walk, hentry] at hwalk
          | directory =>
              simp only [walk, hentry, h.directory place hentry] at hwalk ⊢
              by_cases hup : name = ".."
              · rw [if_pos hup] at hwalk ⊢
                exact ih hwalk
              · rw [if_neg hup] at hwalk ⊢
                by_cases hlong : maxNameBytes < name.utf8ByteSize
                · simp [hlong] at hwalk
                · rw [if_neg hlong] at hwalk ⊢
                  exact ih hwalk

theorem walk_error_below {t t' : FileTree} (h : Below t t') {place : Location}
    {names : List String} {fault : FileFault} (hfault : fault ≠ .notFound)
    (hwalk : t.walk place names = .error fault) : t'.walk place names = .error fault := by
  induction names generalizing place with
  | nil => simp [walk] at hwalk
  | cons name names ih =>
      cases hentry : t.get? place with
      | none => simp_all [walk]
      | some e =>
          cases e with
          | file content modified =>
              obtain ⟨content', modified', hentry'⟩ := h.file place content modified hentry
              simpa [walk, hentry, hentry'] using hwalk
          | directory =>
              simp only [walk, hentry, h.directory place hentry] at hwalk ⊢
              by_cases hup : name = ".."
              · rw [if_pos hup] at hwalk ⊢
                exact ih hwalk
              · rw [if_neg hup] at hwalk ⊢
                by_cases hlong : maxNameBytes < name.utf8ByteSize
                · rw [if_pos hlong] at hwalk ⊢
                  exact hwalk
                · rw [if_neg hlong] at hwalk ⊢
                  exact ih hwalk

theorem resolve_below {t t' : FileTree} (h : Below t t') {p : Path} {l : Location}
    (hp : t.resolve p = .ok l) : t'.resolve p = .ok l := by
  rw [resolve_eq_ok_iff] at hp ⊢
  rw [h.current]
  exact ⟨hp.1, walk_below h hp.2⟩

theorem resolve_error_below {t t' : FileTree} (h : Below t t') {p : Path}
    {fault : AccessFault} (hfault : fault ≠ .refused .notFound)
    (hp : t.resolve p = .error fault) : t'.resolve p = .error fault := by
  by_cases husable : IsUsable p
  · rw [resolve_of_usable husable] at hp ⊢
    rw [h.current]
    cases hwalk : t.walk (startFrom t.current p.root) p.normalize.parts with
    | ok l => simp [hwalk] at hp
    | error f =>
        simp only [hwalk, mapError_error, Except.error.injEq] at hp
        have hf : f ≠ .notFound := by
          rintro rfl
          exact hfault hp.symm
        rw [walk_error_below h hf hwalk, ← hp]
        rfl
  · unfold resolve at hp ⊢
    by_cases hnul : p.normalize.hasNul = true
    · simpa [hnul] using hp
    · have hsize : maxPathBytes ≤ p.normalize.text.utf8ByteSize := by
        simp only [IsUsable, not_and, Bool.not_eq_true] at husable hnul
        have := husable hnul
        omega
      simpa [hnul, hsize] using hp

/-- From the first tree to the second, new directories came at places of `D`, and files
were written at places of `W`, each with the modification time `now`. -/
structure Evolves (now : MTime) (D W : Location → Prop) (t t' : FileTree) : Prop where
  current : t'.current = t.current
  entry : ∀ l, t'.get? l = t.get? l ∨
    (D l ∧ t.get? l = none ∧ t'.get? l = some .directory) ∨
    (W l ∧ t.get? l ≠ some .directory ∧ ∃ content, t'.get? l = some (.file content now))

section

variable {now : MTime} {D W : Location → Prop}

theorem Evolves.refl (t : FileTree) : Evolves now D W t t :=
  ⟨rfl, fun _ => .inl rfl⟩

theorem Evolves.trans {t u v : FileTree} (h : Evolves now D W t u)
    (h' : Evolves now D W u v) : Evolves now D W t v := by
  refine ⟨h'.current.trans h.current, ?_⟩
  intro l
  rcases h'.entry l with hsame | ⟨hD, hnone, hdir⟩ | ⟨hW, hndir, content, hfile⟩
  · rw [hsame]
    exact h.entry l
  · rcases h.entry l with hsame | ⟨_, _, hdir'⟩ | ⟨_, _, _, hfile⟩
    · exact .inr (.inl ⟨hD, hsame ▸ hnone, hdir⟩)
    · simp [hdir'] at hnone
    · simp [hfile] at hnone
  · rcases h.entry l with hsame | ⟨_, _, hdir⟩ | ⟨_, hndir', _⟩
    · exact .inr (.inr ⟨hW, hsame ▸ hndir, content, hfile⟩)
    · exact absurd hdir hndir
    · exact .inr (.inr ⟨hW, hndir', content, hfile⟩)

theorem Evolves.mono {D' W' : Location → Prop} {t t' : FileTree} (h : Evolves now D W t t')
    (hD : ∀ l, D l → D' l) (hW : ∀ l, W l → W' l) : Evolves now D' W' t t' := by
  refine ⟨h.current, fun l => ?_⟩
  rcases h.entry l with hsame | ⟨hl, hrest⟩ | ⟨hl, hrest⟩
  · exact .inl hsame
  · exact .inr (.inl ⟨hD l hl, hrest⟩)
  · exact .inr (.inr ⟨hW l hl, hrest⟩)

theorem Evolves.directory {t t' : FileTree} (h : Evolves now D W t t') {l : Location}
    (hl : t.get? l = some .directory) : t'.get? l = some .directory := by
  rcases h.entry l with hsame | ⟨_, hnone, _⟩ | ⟨_, hndir, _⟩
  · rw [hsame, hl]
  · simp [hl] at hnone
  · exact absurd hl hndir

theorem Evolves.file {t t' : FileTree} (h : Evolves now D W t t') {l : Location}
    {content : ByteArray} {modified : MTime} (hl : t.get? l = some (.file content modified)) :
    t'.get? l = some (.file content modified) ∨
      W l ∧ ∃ content', t'.get? l = some (.file content' now) := by
  rcases h.entry l with hsame | ⟨_, hnone, _⟩ | ⟨hW, _, hfile⟩
  · exact .inl (hsame.trans hl)
  · simp [hl] at hnone
  · exact .inr ⟨hW, hfile⟩

theorem Evolves.file_iff {t t' : FileTree} (h : Evolves now D W t t') {l : Location}
    (hW : ¬ W l) (content : ByteArray) (modified : MTime) :
    t'.get? l = some (.file content modified) ↔ t.get? l = some (.file content modified) := by
  rcases h.entry l with hsame | ⟨_, hnone, hdir⟩ | ⟨hwritten, _⟩
  · rw [hsame]
  · simp [hnone, hdir]
  · exact absurd hwritten hW

theorem Evolves.below {t t' : FileTree} (h : Evolves now D W t t') : Below t t' := by
  refine ⟨h.current, fun l hl => h.directory hl, ?_⟩
  intro l content modified hl
  rcases h.file hl with hsame | ⟨_, content', hfile⟩
  · exact ⟨content, modified, hsame⟩
  · exact ⟨content', now, hfile⟩

theorem Evolves.entry_eq {t t' : FileTree} (h : Evolves now D W t t') {l : Location}
    (hD : ¬ D l) (hW : ¬ W l) : t'.get? l = t.get? l := by
  rcases h.entry l with hsame | ⟨hl, _⟩ | ⟨hl, _⟩
  · exact hsame
  · exact absurd hl hD
  · exact absurd hl hW

end

end Rebuild.Proofs.Growth
