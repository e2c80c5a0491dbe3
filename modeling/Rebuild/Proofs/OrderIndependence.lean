import Rebuild.Proofs.Replay
import Rebuild.Proofs.StatusAgreement

namespace Rebuild.Proofs.OrderIndependence

open Rebuild.FileTree
open Rebuild.Proofs.PathNormal
open Rebuild.Proofs.Lookup
open Rebuild.Proofs.Growth
open Rebuild.Proofs.Steps
open Rebuild.Proofs.Staleness
open Rebuild.Proofs.Writes
open Rebuild.Proofs.Runs
open Rebuild.Proofs.Layout
open Rebuild.Proofs.Agreement
open Rebuild.Proofs.Separation
open Rebuild.Proofs.SameWrites
open Rebuild.Proofs.Replay
open Rebuild.Proofs.StatusAgreement

variable {p : Project} {compile : Compiler} {names order order' built : List ModuleName}
variable {m n : ModuleName} {w w' u u' v v' : Workspace} {current : Location}

/-- Two trees hold the same files and directories and have one current directory. -/
def SameFiles (t t' : FileTree) : Prop :=
  Agree (fun _ => True) t t'

theorem evolves_within_layout (hlayout : IsLaidOut p names current)
    (hnamed : NamesModules compile) (hn : n ∈ names) (hw : w.files.current = current)
    (h : p.rebuild compile n w = .ok () w') :
    w'.now = w.now ∧ w'.files.current = current ∧
      Evolves w.now (Makes p current n) (Writes p current n) w.files w'.files := by
  subst hw
  have hmoves := moves_of_rebuild hlayout hnamed hn
  rw [after_of_ok h] at hmoves
  exact ⟨hmoves.now, hmoves.files.current, hmoves.files⟩

theorem entry_eq_of_rebuild (hlayout : IsLaidOut p names current)
    (hnamed : NamesModules compile) (hn : n ∈ names) (hw : w.files.current = current)
    (h : p.rebuild compile n w = .ok () w') {l : Location} (hl : ¬ Concerns p current n l)
    (hsupport : ¬ supportHome p current <:+ l) : w'.files.get? l = w.files.get? l := by
  obtain ⟨_, _, hgrow⟩ := evolves_within_layout hlayout hnamed hn hw h
  apply hgrow.entry_eq
  · exact fun hmakes => (concerns_or_support (.inl hmakes)).elim hl hsupport
  · exact fun hwrites => (concerns_or_support (.inr hwrites)).elim hl hsupport

theorem rebuild_congr (hlayout : IsLaidOut p names current) (hnamed : NamesModules compile)
    (hcompile : IgnoresFiles compile) (hn : n ∈ names) (hw : w.files.current = current)
    (hnow : u.now = w.now) (hsame : SameFiles w.files u.files)
    (h : p.rebuild compile n w = .ok () w') :
    ∃ u', p.rebuild compile n u = .ok () u' ∧ u'.now = w'.now ∧
      SameFiles w'.files u'.files := by
  have hu : u.files.current = current := hsame.current.trans hw
  obtain ⟨hnow', hw', hgrow⟩ := evolves_within_layout hlayout hnamed hn hw h
  have hbelow : Below u.files w'.files :=
    (Below.refl _).of_entries hgrow.below (hu.trans hw'.symm) fun l =>
      .inr (hsame.entry l trivial)
  have hsupport := supportFiles_of_rebuild hlayout hnamed hn hw h
  rw [← hsame.entry _ trivial] at hsupport
  obtain ⟨u', hrun, _, hagree⟩ := rebuild_again hlayout hnamed hcompile hn hw h hnow hu
    (fun l _ _ => hsame.entry l trivial) (Below.refl _) hbelow hsupport
  obtain ⟨hnowu, hu', _⟩ := evolves_within_layout hlayout hnamed hn hu hrun
  refine ⟨u', hrun, hnowu.trans (hnow.trans hnow'.symm), hu'.trans hw'.symm, fun l _ => ?_⟩
  by_cases hl : Concerns p current n l
  · exact hagree.entry l hl
  · by_cases hsupp : supportHome p current <:+ l
    · exact same_support_of_rebuild hlayout hnamed hn hn hw hu hnow h hrun
        (fun l _ => hsame.entry l trivial) l hsupp
    · rw [entry_eq_of_rebuild hlayout hnamed hn hu hrun hl hsupp,
        entry_eq_of_rebuild hlayout hnamed hn hw h hl hsupp]
      exact hsame.entry l trivial

/-- Two modules can be rebuilt in either order. -/
theorem rebuild_swap (hlayout : IsLaidOut p names current) (hnamed : NamesModules compile)
    (hcompile : IgnoresFiles compile) (hm : m ∈ names) (hn : n ∈ names) (hne : m ≠ n)
    (hw : w.files.current = current) (h : p.rebuild compile m w = .ok () u)
    (h' : p.rebuild compile n u = .ok () v) :
    ∃ u' v', p.rebuild compile n w = .ok () u' ∧ p.rebuild compile m u' = .ok () v' ∧
      v'.now = v.now ∧ SameFiles v.files v'.files := by
  obtain ⟨hunow, hu, hgrowu⟩ := evolves_within_layout hlayout hnamed hm hw h
  obtain ⟨hvnow, hv, hgrowv⟩ := evolves_within_layout hlayout hnamed hn hu h'
  obtain ⟨hhomem, _⟩ := directories_of_rebuild hlayout hnamed hm hw h
  have hwv : Below w.files v.files := hgrowu.below.trans hgrowv.below
  have hsupport : w.files.get? (supportHome p current) = some .directory ∨
      ∀ file ∈ supportFiles p, IsFile v.files file.1 :=
    (supportFiles_of_rebuild hlayout hnamed hm hw h).imp_right fun hfiles file hfile =>
      (hfiles file hfile).below hgrowv.below
  obtain ⟨u', hrun, hbelow, hagreen⟩ := rebuild_again hlayout hnamed hcompile hn hu h'
    hunow.symm hw
    (fun l hl haway => (entry_eq_of_evolves hlayout hn hne.symm hgrowu hl haway).symm)
    (Below.refl _) hwv hsupport
  obtain ⟨hunow', hu', hgrowu'⟩ := evolves_within_layout hlayout hnamed hn hw hrun
  obtain ⟨hhomen, hsupport'⟩ := directories_of_rebuild hlayout hnamed hn hw hrun
  obtain ⟨v', hrun', _, hagreem⟩ := rebuild_again hlayout hnamed hcompile hm hw h hunow' hu'
    (fun l hl haway => entry_eq_of_evolves hlayout hm hne hgrowu' hl haway)
    hgrowv.below hbelow (.inl hsupport')
  obtain ⟨hvnow', hv', hgrowv'⟩ := evolves_within_layout hlayout hnamed hm hu' hrun'
  refine ⟨u', v', hrun, hrun', ?_, hv'.trans hv.symm, fun l _ => ?_⟩
  · rw [hvnow', hunow', hvnow, hunow]
  · by_cases hln : Concerns p current n l
    · rw [(agree_of_evolves hlayout hn hne.symm hgrowv' hhomen).entry l hln]
      exact hagreen.entry l hln
    · by_cases hlm : Concerns p current m l
      · rw [(agree_of_evolves hlayout hm hne hgrowv hhomem).entry l hlm]
        exact hagreem.entry l hlm
      · by_cases hsupp : supportHome p current <:+ l
        · have hfirst := same_support_of_rebuild hlayout hnamed hm hn hw hw rfl h hrun
            fun _ _ => rfl
          exact same_support_of_rebuild hlayout hnamed hn hm hu hu' (hunow'.trans hunow.symm)
            h' hrun' hfirst l hsupp
        · rw [entry_eq_of_rebuild hlayout hnamed hm hu' hrun' hlm hsupp,
            entry_eq_of_rebuild hlayout hnamed hn hw hrun hln hsupp,
            entry_eq_of_rebuild hlayout hnamed hn hu h' hln hsupp,
            entry_eq_of_rebuild hlayout hnamed hm hw h hlm hsupp]

theorem needsRebuild_congr (hlayout : IsLaidOut p names current) (hn : n ∈ names)
    {t t' : FileTree} (ht : t.current = current) (hsame : SameFiles t t') {b : Bool}
    (h : p.needsRebuild t n = .ok b) : p.needsRebuild t' n = .ok b := by
  subst ht
  apply needsRebuild_mono _ _ h
  · intro a ha q hq s? hs
    have hleads := leadsIn_of_artifacts hlayout hn ha (all_of_mem_primary hq)
    rw [timestamp?_agree hsame ⟨hleads.straight, fun _ _ => trivial⟩, hs]
  · intro source inputs hsource hinputs i hi s? hs
    have hleads := leadsIn_of_inputs hlayout hn hsource hinputs hi
    rw [timestamp?_agree hsame ⟨hleads.straight, fun _ _ => trivial⟩, hs]

theorem get?_home_of_timestamp? (hlayout : IsLaidOut p names current) (hn : n ∈ names)
    {t : FileTree} (ht : t.current = current) {a : Artifacts} (ha : p.artifacts n = .ok a)
    {q : Path} (hq : q ∈ a.all) {s : Timestamp} (hs : t.timestamp? q = .ok (some s)) :
    Fits q ∧ t.get? (home p current n) = some .directory := by
  obtain ⟨l, content, modified, hl, hfile, _⟩ := timestamp?_eq_some_iff.mp hs
  obtain ⟨hstraight, _, f, _, hplace⟩ := hlayout.place_of_artifacts hn ha hq
  rw [resolve_straight hstraight hl, ht, hplace] at hfile
  have hpresent : t.get? (f :: home p current n) ≠ none := by simp [hfile]
  exact ⟨fits_of_resolve hstraight hl, get?_parent hpresent⟩

/-- What is known of a module's staleness before the rebuild of another one is known after
it, unless an output can be nowhere. -/
theorem needsRebuild_after_rebuild (hlayout : IsLaidOut p names current)
    (hnamed : NamesModules compile) (hm : m ∈ names) (hn : n ∈ names) (hne : m ≠ n)
    (hw : w.files.current = current) (hrun : p.rebuild compile n w = .ok () w')
    (hfits : ∀ a, p.artifacts m = .ok a → ∀ q ∈ a.primary, Fits q) {b : Bool}
    (h : p.needsRebuild w.files m = .ok b) : p.needsRebuild w'.files m = .ok b := by
  obtain ⟨_, _, hgrow⟩ := evolves_within_layout hlayout hnamed hn hw hrun
  have houtputs : ∀ a, p.artifacts m = .ok a → ∀ q ∈ a.primary, ∀ s?,
      w.files.timestamp? q = .ok s? → w'.files.timestamp? q = .ok s? := by
    intro a ha q hq s? hs
    have hleads := leadsIn_of_artifacts hlayout hm ha (all_of_mem_primary hq)
    rw [timestamp?_of_apart hgrow hleads.straight (hfits a ha q hq)
      (hw ▸ not_writes_of_leadsIn hlayout hm hne hleads), hs]
  by_cases hhome : w.files.get? (home p current m) = some .directory
  · have hagree := agree_of_evolves hlayout hm hne hgrow hhome
    apply needsRebuild_mono houtputs _ h
    intro source inputs hsource hinputs i hi s? hs
    rw [timestamp?_agree hagree (hw ▸ leadsIn_of_inputs hlayout hm hsource hinputs hi), hs]
  · -- without its home the module has no outputs, and its inputs are not looked at
    obtain ⟨location, o?, hlocation, houtput, hcase⟩ := needsRebuild_eq_ok_iff.mp h
    obtain ⟨a, stamps, ha, hstamps, hearliest⟩ := outputTimestamp_eq_ok_iff.mp houtput
    refine needsRebuild_eq_ok_iff.mpr ⟨location, o?, hlocation, outputTimestamp_eq_ok_iff.mpr
      ⟨a, stamps, ha, timestampsWhilePresent_mono (houtputs a ha) hstamps, hearliest⟩, ?_⟩
    rcases hcase with hnone | ⟨written, _, rfl, _⟩
    · exact .inl hnone
    · obtain ⟨q, hq, hs⟩ := (earliest_spec hstamps hearliest).2
      exact absurd (get?_home_of_timestamp? hlayout hm hw ha (all_of_mem_primary hq) hs).2
        hhome

theorem fits_of_fresh (hlayout : IsLaidOut p names current) (hn : n ∈ names) {t : FileTree}
    (ht : t.current = current) (h : p.needsRebuild t n = .ok false) :
    ∀ a, p.artifacts n = .ok a → ∀ q ∈ a.primary, Fits q := by
  obtain ⟨_, a', _, ha', hpresent, _⟩ := needsRebuild_eq_false_iff.mp h
  intro a ha q hq
  obtain rfl : a = a' := by simpa [ha] using ha'
  obtain ⟨s, hs⟩ := hpresent q hq
  exact (get?_home_of_timestamp? hlayout hn ht ha (all_of_mem_primary hq) hs).1

theorem fits_of_rebuild (hlayout : IsLaidOut p names current) (hnamed : NamesModules compile)
    (hn : n ∈ names) (h : p.rebuild compile n w = .ok () w') :
    ∀ a, p.artifacts n = .ok a → ∀ q ∈ a.primary, Fits q := by
  obtain ⟨r, a', hr, hpersist⟩ := rebuild_eq_ok_iff.mp h
  obtain rfl := hnamed w.files n r hr
  obtain ⟨ha', hwritten⟩ := isWritten_of_persist hpersist
  intro a ha q hq
  obtain rfl : a = a' := by simpa [ha] using ha'
  obtain ⟨l, _, hl, _⟩ := hwritten q hq
  exact fits_of_resolve (hlayout.place_of_artifacts hn ha (all_of_mem_primary hq)).1 hl

theorem turns_congr (hlayout : IsLaidOut p names current) (hnamed : NamesModules compile)
    (hcompile : IgnoresFiles compile) (hsub : ∀ k ∈ order, k ∈ names)
    (hw : w.files.current = current) (hnow : u.now = w.now)
    (hsame : SameFiles w.files u.files) (h : Turns p compile w order built v) :
    ∃ v', Turns p compile u order built v' ∧ SameFiles v.files v'.files := by
  induction h generalizing u with
  | done w => exact ⟨u, .done u, hsame⟩
  | @fresh w v n order built hfresh _ ih =>
      obtain ⟨v', hturns, hfiles⟩ := ih (fun k hk => hsub k (by simp [hk])) hw hnow hsame
      exact ⟨v', .fresh (needsRebuild_congr hlayout (hsub n (by simp)) hw hsame hfresh) hturns,
        hfiles⟩
  | @stale w x v n order built hstale hrebuild _ ih =>
      have hn := hsub n (by simp)
      obtain ⟨x', hrebuild', hnow', hsame'⟩ :=
        rebuild_congr hlayout hnamed hcompile hn hw hnow hsame hrebuild
      obtain ⟨_, hx, _⟩ := evolves_within_layout hlayout hnamed hn hw hrebuild
      obtain ⟨v', hturns, hfiles⟩ := ih (fun k hk => hsub k (by simp [hk])) hx hnow' hsame'
      exact ⟨v', .stale (needsRebuild_congr hlayout hn hw hsame hstale) hrebuild' hturns, hfiles⟩

theorem turns_swap (hlayout : IsLaidOut p names current) (hnamed : NamesModules compile)
    (hcompile : IgnoresFiles compile) (hsub : ∀ k ∈ m :: n :: order, k ∈ names) (hne : m ≠ n)
    (hw : w.files.current = current) (h : Turns p compile w (m :: n :: order) built v) :
    ∃ built' v', Turns p compile w (n :: m :: order) built' v' ∧ built.Perm built' ∧
      SameFiles v.files v'.files := by
  have hm := hsub m (by simp)
  have hn := hsub n (by simp)
  have hsame : SameFiles v.files v.files := ⟨rfl, fun _ _ => rfl⟩
  rcases h with _ | ⟨hfreshm, h⟩ | ⟨hstalem, hrebuildm, h⟩
  · rcases h with _ | ⟨hfreshn, h⟩ | ⟨hstalen, hrebuildn, h⟩
    · exact ⟨_, v, .fresh hfreshn (.fresh hfreshm h), List.Perm.refl _, hsame⟩
    · have hfits := fits_of_fresh hlayout hm hw hfreshm
      have hfreshm' :=
        needsRebuild_after_rebuild hlayout hnamed hm hn hne hw hrebuildn hfits hfreshm
      exact ⟨_, v, .stale hstalen hrebuildn (.fresh hfreshm' h), List.Perm.refl _, hsame⟩
  · rename_i x built
    have hbefore : ∀ b, p.needsRebuild x.files n = .ok b → p.needsRebuild w.files n = .ok b := by
      intro b hb
      rw [← after_of_ok hrebuildm] at hb
      exact needsRebuild_before_rebuild (hw ▸ hlayout) hnamed hm hn hne.symm hb
    rcases h with _ | ⟨hfreshn, h⟩ | ⟨hstalen, hrebuildn, h⟩
    · exact ⟨_, v, .fresh (hbefore _ hfreshn) (.stale hstalem hrebuildm h), List.Perm.refl _,
        hsame⟩
    · obtain ⟨_, hx, _⟩ := evolves_within_layout hlayout hnamed hm hw hrebuildm
      obtain ⟨_, hy, _⟩ := evolves_within_layout hlayout hnamed hn hx hrebuildn
      obtain ⟨x', y', hrebuildn', hrebuildm', hnow, hfiles⟩ :=
        rebuild_swap hlayout hnamed hcompile hm hn hne hw hrebuildm hrebuildn
      have hfits := fits_of_rebuild hlayout hnamed hm hrebuildm
      have hstalem' :=
        needsRebuild_after_rebuild hlayout hnamed hm hn hne hw hrebuildn' hfits hstalem
      obtain ⟨v', hturns, hsame'⟩ := turns_congr hlayout hnamed hcompile
        (fun k hk => hsub k (by simp [hk])) hy hnow hfiles h
      exact ⟨_, v', .stale (hbefore _ hstalen) hrebuildn' (.stale hstalem' hrebuildm' hturns),
        List.Perm.swap _ _ _, hsame'⟩

theorem turns_perm (hperm : order.Perm order') (hlayout : IsLaidOut p names current)
    (hnamed : NamesModules compile) (hcompile : IgnoresFiles compile)
    (hsub : ∀ k ∈ order, k ∈ names) (hdistinct : order.Nodup)
    (hw : w.files.current = current) (h : Turns p compile w order built v) :
    ∃ built' v', Turns p compile w order' built' v' ∧ built.Perm built' ∧
      SameFiles v.files v'.files := by
  induction hperm generalizing w built v with
  | nil => exact ⟨built, v, h, List.Perm.refl _, rfl, fun _ _ => rfl⟩
  | cons n _ ih =>
      have hsub' := fun k hk => hsub k (List.mem_cons_of_mem n hk)
      obtain ⟨_, hdistinct'⟩ := List.nodup_cons.mp hdistinct
      rcases h with _ | ⟨hfresh, h⟩ | ⟨hstale, hrebuild, h⟩
      · obtain ⟨built', v', hturns, hbuilt, hfiles⟩ := ih hsub' hdistinct' hw h
        exact ⟨built', v', .fresh hfresh hturns, hbuilt, hfiles⟩
      · obtain ⟨_, hx, _⟩ :=
          evolves_within_layout hlayout hnamed (hsub n (by simp)) hw hrebuild
        obtain ⟨built', v', hturns, hbuilt, hfiles⟩ := ih hsub' hdistinct' hx h
        exact ⟨n :: built', v', .stale hstale hrebuild hturns, hbuilt.cons n, hfiles⟩
  | swap m n order =>
      have hne : n ≠ m := fun heq => (List.nodup_cons.mp hdistinct).1 (by simp [heq])
      exact turns_swap hlayout hnamed hcompile hsub hne hw h
  | trans hfirst _ ih ih' =>
      obtain ⟨built', v', hturns, hbuilt, hfiles⟩ := ih hsub hdistinct hw h
      obtain ⟨built'', v'', hturns', hbuilt', hfiles'⟩ :=
        ih' (fun k hk => hsub k (hfirst.mem_iff.mpr hk)) (hfirst.nodup_iff.mp hdistinct) hw hturns
      exact ⟨built'', v'', hturns', hbuilt.trans hbuilt', Agree.trans hfiles hfiles'⟩

/-- A build of distinct modules in one order returns when it does in another, with the
same modules rebuilt and the same tree. -/
theorem build_independent_of_order {requests requests' : List Value}
    (hnames : Names requests order) (hnames' : Names requests' order')
    (hperm : order.Perm order') (hdistinct : order.Nodup)
    (hlayout : IsLaidOut p order w.files.current) (hnamed : NamesModules compile)
    (hcompile : IgnoresFiles compile) :
    ((∃ built v, p.build compile requests w = .ok built v) ↔
      ∃ built v, p.build compile requests' w = .ok built v) ∧
    ∀ built built' v v', p.build compile requests w = .ok built v →
      p.build compile requests' w = .ok built' v' →
      built.Perm built' ∧ v'.files.current = v.files.current ∧
        ∀ l, v'.files.get? l = v.files.get? l := by
  have hsub : ∀ k ∈ order, k ∈ order := fun _ hk => hk
  have hforth : ∀ built v, p.build compile requests w = .ok built v →
      ∃ built' v', p.build compile requests' w = .ok built' v' ∧ built.Perm built' ∧
        SameFiles v.files v'.files := by
    intro built v hrun
    obtain ⟨built', v', hturns, hbuilt, hfiles⟩ := turns_perm hperm hlayout hnamed hcompile hsub
      hdistinct rfl ((build_eq_ok_iff hnames).mp hrun)
    exact ⟨built', v', (build_eq_ok_iff hnames').mpr hturns, hbuilt, hfiles⟩
  refine ⟨⟨?_, ?_⟩, ?_⟩
  · rintro ⟨built, v, hrun⟩
    obtain ⟨built', v', hrun', _⟩ := hforth built v hrun
    exact ⟨built', v', hrun'⟩
  · rintro ⟨built, v, hrun⟩
    obtain ⟨built', v', hturns, _⟩ := turns_perm hperm.symm hlayout hnamed hcompile
      (fun k hk => hperm.mem_iff.mpr hk) (hperm.nodup_iff.mp hdistinct) rfl
      ((build_eq_ok_iff hnames').mp hrun)
    exact ⟨built', v', (build_eq_ok_iff hnames).mpr hturns⟩
  · intro built built' v v' hrun hrun'
    obtain ⟨built₁, v₁, hrun₁, hbuilt, hfiles⟩ := hforth built v hrun
    rw [hrun'] at hrun₁
    cases hrun₁
    exact ⟨hbuilt, hfiles.current, fun l => hfiles.entry l trivial⟩

theorem build_independent_of_order_small :
    ∃ built v, smallProject.build smallCompiler [.name beta, .text "A"] smallWorkspace =
        .ok built v ∧
      built.Perm [alpha, beta] ∧
      ∀ l, (after (smallProject.build smallCompiler [.name alpha, .name beta])
        smallWorkspace).files.get? l = v.files.get? l := by
  have hnames : Names [.name beta, .text "A"] [beta, alpha] := rfl
  have hnames' : Names [.name alpha, .name beta] [alpha, beta] := rfl
  have hrun' := returns_iff.mp (show returns
    (smallProject.build smallCompiler [.name alpha, .name beta]) smallWorkspace [alpha, beta] =
      true by decide +kernel)
  obtain ⟨hreturns, hsame⟩ := build_independent_of_order (w := smallWorkspace) hnames hnames'
    (List.Perm.swap _ _ _) (by decide) isLaidOut_small namesModules_smallCompiler
    fun _ _ _ => rfl
  obtain ⟨built, v, hrun⟩ := hreturns.mpr ⟨_, _, hrun'⟩
  obtain ⟨hbuilt, _, hfiles⟩ := hsame _ _ _ _ hrun hrun'
  exact ⟨built, v, hrun, hbuilt, hfiles⟩

end Rebuild.Proofs.OrderIndependence
