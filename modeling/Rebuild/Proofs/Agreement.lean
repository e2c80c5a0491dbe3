import Rebuild.Files
import Rebuild.Proofs.TreeCalls

namespace Rebuild.Proofs.Agreement

open Rebuild.FileTree
open Rebuild.Proofs.PathNormal
open Rebuild.Proofs.Lookup
open Rebuild.Proofs.TreeCalls

/-- Two trees with one current directory have the same entries at the places of `F`. -/
structure Agree (F : Location → Prop) (t t' : FileTree) : Prop where
  current : t'.current = t.current
  entry : ∀ l, F l → t'.get? l = t.get? l

/-- The path leads through places of `F` only. -/
structure LeadsIn (F : Location → Prop) (current : Location) (q : Path) : Prop where
  straight : IsStraight q
  places : ∀ l, l <:+ placeFrom current q → F l

section

variable {F : Location → Prop} {t t' : FileTree} {q source target : Path}

theorem Agree.symm (h : Agree F t t') : Agree F t' t :=
  ⟨h.current.symm, fun l hl => (h.entry l hl).symm⟩

theorem LeadsIn.place (h : LeadsIn F t.current q) {l : Location}
    (hl : t.resolve q = .ok l) : F l :=
  resolve_straight h.straight hl ▸ h.places _ (List.suffix_refl _)

theorem Agree.trans {t'' : FileTree} (h : Agree F t t') (h' : Agree F t' t'') :
    Agree F t t'' :=
  ⟨h'.current.trans h.current, fun l hl => (h'.entry l hl).trans (h.entry l hl)⟩

theorem walk_agree (h : Agree F t t') {place : Location} {names : List String}
    (hstraight : ".." ∉ names)
    (hF : ∀ before name after, names = before ++ name :: after → F (before.reverse ++ place)) :
    t'.walk place names = t.walk place names := by
  induction names generalizing place with
  | nil => rfl
  | cons name rest ih =>
      have hplace : t'.get? place = t.get? place := h.entry place (hF [] name rest rfl)
      have hname : ¬ name = ".." := fun heq => hstraight (by simp [heq])
      have hrest : t'.walk (name :: place) rest = t.walk (name :: place) rest := by
        apply ih fun hmem => hstraight (List.mem_cons_of_mem name hmem)
        rintro before next after rfl
        simpa using hF (name :: before) next after rfl
      simp only [walk, hplace, if_neg hname, hrest]

theorem resolve_agree (h : Agree F t t') (hq : LeadsIn F t.current q) :
    t'.resolve q = t.resolve q := by
  have hwalk : t'.walk (startFrom t.current q.root) q.normalize.parts =
      t.walk (startFrom t.current q.root) q.normalize.parts := by
    apply walk_agree h hq.straight
    intro before name after hparts
    apply hq.places
    refine ⟨(name :: after).reverse, ?_⟩
    unfold placeFrom
    rw [hparts, List.reverse_append, List.append_assoc]
  unfold resolve
  simp only [startOf_eq, root_normalize, h.current, hwalk]

theorem status_agree (h : Agree F t t') (hq : LeadsIn F t.current q) :
    t'.status q = t.status q := by
  unfold status
  rw [resolve_agree h hq]
  cases hl : t.resolve q with
  | ok l => simp only [bind, Except.bind, h.entry l (hq.place hl)]
  | error fault => rfl

theorem probe_agree (h : Agree F t t') (hq : LeadsIn F t.current q) :
    t'.probe q = t.probe q := by
  unfold probe
  rw [status_agree h hq]

theorem timestamp?_agree (h : Agree F t t') (hq : LeadsIn F t.current q) :
    t'.timestamp? q = t.timestamp? q := by
  unfold timestamp?
  rw [probe_agree h hq]

theorem isFile_agree (h : Agree F t t') (hq : LeadsIn F t.current q) :
    t'.isFile q = t.isFile q := by
  unfold FileTree.isFile
  rw [probe_agree h hq]

theorem read_agree (h : Agree F t t') (hq : LeadsIn F t.current q) :
    t'.read q = t.read q := by
  unfold FileTree.read
  rw [status_agree h hq]

theorem isSame_agree (h : Agree F t t') (hsource : LeadsIn F t.current source)
    (htarget : LeadsIn F t.current target) :
    t'.isSame source target = t.isSame source target := by
  unfold isSame
  rw [resolve_agree h hsource, resolve_agree h htarget]
  cases hl : t.resolve source with
  | ok l =>
      cases t.resolve target with
      | ok k => simp only [h.entry l (hsource.place hl)]
      | error fault => rfl
  | error fault => rfl

/-- A call failed with the same fault in both trees, or succeeded in both and left
trees that agree. -/
def SameChange (F : Location → Prop) (x x' : Except AccessFault FileTree) : Prop :=
  (∃ fault, x = .error fault ∧ x' = .error fault) ∨
    ∃ u u', x = .ok u ∧ x' = .ok u' ∧ Agree F u u'

theorem placeAt_agree (h : Agree F t t') (hq : LeadsIn F t.current q) (e : Entry) :
    SameChange F (t.placeAt q e) (t'.placeAt q e) := by
  have hresolve := resolve_agree h hq
  cases hl : t.resolve q with
  | error fault =>
      exact .inl ⟨fault, placeAt_error e hl, placeAt_error e (hresolve.trans hl)⟩
  | ok l =>
      have hl' : t'.resolve q = .ok l := hresolve.trans hl
      have hentry := h.entry l (hq.place hl)
      by_cases hdir : t.get? l = some .directory
      · exact .inl ⟨_, placeAt_directory e hl hdir, placeAt_directory e hl' (hentry.trans hdir)⟩
      · obtain ⟨u, hu⟩ := exists_placeAt e hl hdir
        obtain ⟨u', hu'⟩ := exists_placeAt e hl' (hentry ▸ hdir)
        refine .inr ⟨u, u', hu, hu', ?_⟩
        obtain ⟨k, hk, _, hcurrent, hview⟩ := placeAt_eq_ok hu
        obtain ⟨k', hk', _, hcurrent', hview'⟩ := placeAt_eq_ok hu'
        have hkk : k' = k := by simpa [hl'] using hk'.symm.trans (hresolve.trans hk)
        refine ⟨hcurrent'.trans (h.current.trans hcurrent.symm), fun j hj => ?_⟩
        rw [hview, hview', hkk, h.entry j hj]

theorem copy_agree (h : Agree F t t') (hsource : LeadsIn F t.current source)
    (htarget : LeadsIn F t.current target) (now : MTime) :
    SameChange F (t.copy source target now) (t'.copy source target now) := by
  unfold FileTree.copy
  rw [isSame_agree h hsource htarget, read_agree h hsource]
  split
  · exact .inl ⟨_, rfl, rfl⟩
  · split
    · exact .inl ⟨_, rfl, rfl⟩
    · cases t.read source with
      | error fault => exact .inl ⟨fault, rfl, rfl⟩
      | ok content => exact placeAt_agree h htarget (.file content now)

end

end Rebuild.Proofs.Agreement
