import Rebuild.Proofs.TreeCalls

namespace Rebuild.Proofs.Directories

open Rebuild.FileTree
open Rebuild.Proofs.PathNormal
open Rebuild.Proofs.Lookup
open Rebuild.Proofs.Growth
open Rebuild.Proofs.TreeCalls

theorem makeDirsBelow_cons (root : Path.Root) (name : String) (above : List String)
    (t : FileTree) :
    makeDirsBelow root (name :: above) t =
      match t.makeDir ⟨root, (name :: above).reverse⟩ with
      | .ok t' => (t', .ok ())
      | .error fault =>
        if fault = .refused .notFound then
          match makeDirsBelow root above t with
          | (t', .error fault) => (t', .error fault)
          | (t', .ok ()) =>
            match t'.makeDir ⟨root, (name :: above).reverse⟩ with
            | .ok t'' => (t'', .ok ())
            | .error fault =>
              (t', if fault = .refused .notFound then .error fault
                else t'.acceptDir ⟨root, (name :: above).reverse⟩ fault)
        else (t, t.acceptDir ⟨root, (name :: above).reverse⟩ fault) := by
  rw [makeDirsBelow]
  cases t.makeDir ⟨root, (name :: above).reverse⟩ with
  | ok t' => rfl
  | error fault =>
      by_cases hfault : fault = .refused .notFound
      · subst hfault
        simp only [if_true]
        rcases makeDirsBelow root above t with ⟨t', _ | _⟩
        · rfl
        · simp only
          cases t'.makeDir ⟨root, (name :: above).reverse⟩ with
          | ok t'' => rfl
          | error fault =>
              by_cases hfault : fault = .refused .notFound
              · simp [hfault]
              · cases fault with
                | embeddedNul => rfl
                | refused f => cases f <;> rfl
      · cases fault with
        | embeddedNul => rfl
        | refused f => cases f <;> first | rfl | exact absurd rfl hfault

theorem resolve_root (root : Path.Root) (t : FileTree) :
    t.resolve ⟨root, []⟩ = .ok (startFrom t.current root) ∧
      t.get? (startFrom t.current root) = some .directory := by
  have husable : IsUsable ⟨root, []⟩ := by
    cases root <;> exact ⟨by decide, by decide⟩
  refine ⟨resolve_eq_ok_iff.mpr ⟨husable, rfl⟩, ?_⟩
  cases root <;> simp [startFrom]

theorem makeDirsBelow_present {root : Path.Root} {names : List String} {t : FileTree}
    {l : Location} (hp : t.resolve ⟨root, names.reverse⟩ = .ok l)
    (hl : t.get? l = some .directory) : makeDirsBelow root names t = (t, .ok ()) := by
  have hmake : t.makeDir ⟨root, names.reverse⟩ = .error (.refused .alreadyExists) :=
    makeDir_present hp (by simp [hl])
  have haccept : t.acceptDir ⟨root, names.reverse⟩ (.refused .alreadyExists) = .ok () :=
    acceptDir_eq_ok_iff.mpr ⟨by simp, l, hp, hl⟩
  cases names with
  | nil =>
      simp only [List.reverse_nil] at hmake haccept
      rw [makeDirsBelow, hmake]
      simp only [haccept]
  | cons name above => simp [makeDirsBelow_cons, hmake, haccept, -List.reverse_cons]

theorem makeDirsBelow_nil (root : Path.Root) (t : FileTree) :
    makeDirsBelow root [] t = (t, .ok ()) :=
  makeDirsBelow_present (resolve_root root t).1 (resolve_root root t).2

section

variable {now : MTime} {D W : Location → Prop}

theorem evolves_makeDirsBelow (root : Path.Root) (names : List String) (t : FileTree)
    (hD : ∀ (u : FileTree) above l, u.current = t.current → above <:+ names →
      u.resolve ⟨root, above.reverse⟩ = .ok l → D l) :
    Evolves now D W t (makeDirsBelow root names t).1 := by
  induction names with
  | nil =>
      rw [makeDirsBelow_nil]
      exact Evolves.refl t
  | cons name above ih =>
      have hself : ∀ (u : FileTree) l, u.current = t.current →
          u.resolve ⟨root, (name :: above).reverse⟩ = .ok l → D l :=
        fun u l hu => hD u (name :: above) l hu (List.suffix_refl _)
      have habove := ih fun u ks l hu hks =>
        hD u ks l hu (hks.trans (List.suffix_cons name above))
      rw [makeDirsBelow_cons]
      cases hmake : t.makeDir ⟨root, (name :: above).reverse⟩ with
      | ok t' => exact evolves_of_makeDir hmake fun l => hself t l rfl
      | error fault =>
          simp only
          split
          · rcases hbelow : makeDirsBelow root above t with ⟨t', _ | _⟩
            · simpa [hbelow] using habove
            · rw [hbelow] at habove
              simp only
              cases hagain : t'.makeDir ⟨root, (name :: above).reverse⟩ with
              | ok t'' =>
                  exact habove.trans
                    (evolves_of_makeDir hagain fun l => hself t' l habove.current)
              | error fault' => exact habove
          · exact Evolves.refl t

end

theorem resolve_of_makeDirsBelow {root : Path.Root} {names : List String} {t t' : FileTree}
    (h : makeDirsBelow root names t = (t', .ok ())) :
    ∃ l, t'.resolve ⟨root, names.reverse⟩ = .ok l ∧ t'.get? l = some .directory := by
  have hmade : ∀ u u' : FileTree, u.makeDir ⟨root, names.reverse⟩ = .ok u' →
      ∃ l, u'.resolve ⟨root, names.reverse⟩ = .ok l ∧ u'.get? l = some .directory := by
    intro u u' hmake
    have hgrow : Evolves ⟨0, 0⟩ (fun _ => True) (fun _ => True) u u' :=
      evolves_of_makeDir hmake fun _ _ => trivial
    obtain ⟨l, hl, _, _, hview⟩ := makeDir_eq_ok hmake
    exact ⟨l, resolve_below hgrow.below hl, by simp [hview]⟩
  cases names with
  | nil => exact ⟨_, resolve_root root t'⟩
  | cons name above =>
      rw [makeDirsBelow_cons] at h
      cases hmake : t.makeDir ⟨root, (name :: above).reverse⟩ with
      | ok u =>
          simp only [hmake, Prod.mk.injEq, and_true] at h
          exact h ▸ hmade t u hmake
      | error fault =>
          simp only [hmake] at h
          split at h
          · rcases hbelow : makeDirsBelow root above t with ⟨u, _ | _⟩
            · simp [hbelow] at h
            · simp only [hbelow] at h
              cases hagain : u.makeDir ⟨root, (name :: above).reverse⟩ with
              | ok u' =>
                  simp only [hagain, Prod.mk.injEq, and_true] at h
                  exact h ▸ hmade u u' hagain
              | error fault' =>
                  simp only [hagain, Prod.mk.injEq] at h
                  obtain ⟨rfl, haccept⟩ := h
                  split at haccept
                  · cases haccept
                  · exact (acceptDir_eq_ok_iff.mp haccept).2
          · simp only [Prod.mk.injEq] at h
            obtain ⟨rfl, haccept⟩ := h
            exact (acceptDir_eq_ok_iff.mp haccept).2

theorem not_directory_of_makeDirsBelow {root : Path.Root} {names : List String}
    {t t' : FileTree} {fault : AccessFault} (hnormal : IsNormal ⟨root, names.reverse⟩)
    (h : makeDirsBelow root names t = (t', .error fault)) {l : Location}
    (hl : t'.resolve ⟨root, names.reverse⟩ = .ok l) : t'.get? l ≠ some .directory := by
  induction names generalizing l fault t' with
  | nil => simp [makeDirsBelow_nil] at h
  | cons name above ih =>
      intro hdir
      -- To make a directory that is there is accepted, however it is refused.
      have haccept : ∀ fault', t'.makeDir ⟨root, (name :: above).reverse⟩ = .error fault' →
          fault' ≠ .refused .notFound ∧
            t'.acceptDir ⟨root, (name :: above).reverse⟩ fault' = .ok () := by
        intro fault' hmake
        rw [makeDir_present hl (by simp [hdir]), Except.error.injEq] at hmake
        subst hmake
        exact ⟨by simp, acceptDir_eq_ok_iff.mpr ⟨by simp, l, hl, hdir⟩⟩
      rw [makeDirsBelow_cons] at h
      cases hfirst : t.makeDir ⟨root, (name :: above).reverse⟩ with
      | ok u => simp [hfirst, -List.reverse_cons] at h
      | error fault' =>
          simp only [hfirst] at h
          split at h
          · rcases hbelow : makeDirsBelow root above t with ⟨u, fault'' | _⟩
            · simp only [hbelow, Prod.mk.injEq] at h
              obtain ⟨rfl, _⟩ := h
              rw [List.reverse_cons] at hnormal hl
              obtain ⟨k, hk, hkdir⟩ := resolve_init hnormal hl
              have habove : IsNormal ⟨root, above.reverse⟩ :=
                isNormal_of_subset hnormal fun part hpart => List.mem_append_left [name] hpart
              exact ih habove hbelow hk hkdir
            · simp only [hbelow] at h
              cases hagain : u.makeDir ⟨root, (name :: above).reverse⟩ with
              | ok u' => simp [hagain, -List.reverse_cons] at h
              | error fault'' =>
                  simp only [hagain, Prod.mk.injEq] at h
                  obtain ⟨rfl, hfault⟩ := h
                  obtain ⟨hfound, hok⟩ := haccept fault'' hagain
                  rw [if_neg hfound, hok] at hfault
                  cases hfault
          · simp only [Prod.mk.injEq] at h
            obtain ⟨rfl, hfault⟩ := h
            rw [(haccept fault' hfirst).2] at hfault
            cases hfault

theorem makeDirsBelow_of_below {root : Path.Root} {names : List String} {t u : FileTree}
    {l : Location} (hnormal : IsNormal ⟨root, names.reverse⟩) (h : Below t u)
    (hp : u.resolve ⟨root, names.reverse⟩ = .ok l) (hl : u.get? l = some .directory) :
    ∃ t', makeDirsBelow root names t = (t', .ok ()) ∧ Below t' u := by
  induction names generalizing l with
  | nil => exact ⟨t, makeDirsBelow_nil root t, h⟩
  | cons name above ih =>
      rw [makeDirsBelow_cons]
      rcases makeDir_of_below h hp hl with ⟨t', ht', hbelow⟩ | ⟨hmake, haccept⟩ | hmissing
      · exact ⟨t', by rw [ht'], hbelow⟩
      · exact ⟨t, by simp [hmake, haccept, -List.reverse_cons], h⟩
      · rw [List.reverse_cons] at hnormal hp
        obtain ⟨k, hk, hkdir⟩ := resolve_init hnormal hp
        have habove : IsNormal ⟨root, above.reverse⟩ :=
          isNormal_of_subset hnormal fun part hpart => List.mem_append_left [name] hpart
        obtain ⟨t', ht', hbelow⟩ := ih habove hk hkdir
        obtain ⟨k', hk', hkdir'⟩ := resolve_of_makeDirsBelow ht'
        have hfound := resolve_snoc_found hnormal hk' hkdir'
        rw [← List.reverse_cons] at hp hfound
        simp only [makeDir_error hmissing, if_true, ht']
        rcases makeDir_of_below hbelow hp hl with
          ⟨t'', ht'', hbelow'⟩ | ⟨hagain, haccept⟩ | hagain
        · exact ⟨t'', by rw [ht''], hbelow'⟩
        · exact ⟨t', by simp [hagain, haccept, -List.reverse_cons], hbelow⟩
        · exact absurd hagain hfound

theorem makeDirs_eq (t : FileTree) (p : Path) :
    t.makeDirs p = makeDirsBelow p.root p.normalize.parts.reverse t :=
  rfl

theorem normalize_eq_mk (p : Path) :
    p.normalize = ⟨p.root, p.normalize.parts.reverse.reverse⟩ := by
  rw [List.reverse_reverse]
  rfl

theorem evolves_makeDirs {now : MTime} {D W : Location → Prop} (t : FileTree) (p : Path)
    (hD : ∀ (u : FileTree) names l, u.current = t.current → names <+: p.normalize.parts →
      u.resolve ⟨p.root, names⟩ = .ok l → D l) :
    Evolves now D W t (t.makeDirs p).1 := by
  rw [makeDirs_eq]
  apply evolves_makeDirsBelow
  intro u above l hu habove
  apply hD u above.reverse l hu
  rw [← List.reverse_suffix, List.reverse_reverse]
  exact habove

theorem resolve_of_makeDirs {t t' : FileTree} {p : Path} (h : t.makeDirs p = (t', .ok ())) :
    ∃ l, t'.resolve p = .ok l ∧ t'.get? l = some .directory := by
  rw [makeDirs_eq] at h
  obtain ⟨l, hl, hdir⟩ := resolve_of_makeDirsBelow h
  rw [← normalize_eq_mk, resolve_normalize] at hl
  exact ⟨l, hl, hdir⟩

theorem not_directory_of_makeDirs {t t' : FileTree} {p : Path} {fault : AccessFault}
    (h : t.makeDirs p = (t', .error fault)) {l : Location} (hl : t'.resolve p = .ok l) :
    t'.get? l ≠ some .directory := by
  rw [makeDirs_eq] at h
  rw [← resolve_normalize, normalize_eq_mk] at hl
  exact not_directory_of_makeDirsBelow (normalize_eq_mk p ▸ isNormal_normalize p) h hl

theorem makeDirs_present {t : FileTree} {p : Path} {l : Location} (hp : t.resolve p = .ok l)
    (hl : t.get? l = some .directory) : t.makeDirs p = (t, .ok ()) := by
  rw [makeDirs_eq]
  apply makeDirsBelow_present (l := l) _ hl
  rw [← normalize_eq_mk, resolve_normalize]
  exact hp

theorem makeDirs_of_below {t u : FileTree} {p : Path} {l : Location} (h : Below t u)
    (hp : u.resolve p = .ok l) (hl : u.get? l = some .directory) :
    ∃ t', t.makeDirs p = (t', .ok ()) ∧ Below t' u := by
  have hp' : u.resolve ⟨p.root, p.normalize.parts.reverse.reverse⟩ = .ok l := by
    rw [← normalize_eq_mk, resolve_normalize]
    exact hp
  rw [makeDirs_eq]
  exact makeDirsBelow_of_below (normalize_eq_mk p ▸ isNormal_normalize p) h hp' hl

end Rebuild.Proofs.Directories
