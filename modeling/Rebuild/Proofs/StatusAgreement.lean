import Rebuild.Proofs.Runs
import Rebuild.Proofs.Separation

namespace Rebuild.Proofs.StatusAgreement

open Rebuild.FileTree
open Rebuild.Proofs.Lookup
open Rebuild.Proofs.Growth
open Rebuild.Proofs.Steps
open Rebuild.Proofs.Staleness
open Rebuild.Proofs.Runs
open Rebuild.Proofs.Layout
open Rebuild.Proofs.Separation

variable {p : Project} {compile : Compiler} {names order built : List ModuleName}
variable {m n : ModuleName} {w w' : Workspace}

theorem moves_of_rebuild (hlayout : IsLaidOut p names w.files.current)
    (hnamed : NamesModules compile) (hn : n ∈ names) :
    Moves (Makes p w.files.current n) (Writes p w.files.current n) (announced n w)
      (after (p.rebuild compile n) w) := by
  apply moves_rebuild
  intro c hc
  have hcn := hnamed w.files n c hc
  have hwithin := hlayout.within_persist (c := c.module) (hcn.symm ▸ hn) c.environment c.externs
  rwa [hcn] at hwithin

/-- What is known of a module's staleness after the rebuild of another one was known
before. -/
theorem needsRebuild_before_rebuild (hlayout : IsLaidOut p names w.files.current)
    (hnamed : NamesModules compile) (hn : n ∈ names) (hm : m ∈ names) (hne : m ≠ n) {b : Bool}
    (h : p.needsRebuild (after (p.rebuild compile n) w).files m = .ok b) :
    p.needsRebuild w.files m = .ok b := by
  have hfiles := (moves_of_rebuild hlayout hnamed hn).files
  apply needsRebuild_mono _ _ h
  · intro a ha q hq s? hs
    have hleads := leadsIn_of_artifacts hlayout hm ha (all_of_mem_primary hq)
    exact timestamp?_before hfiles hleads.straight (not_writes_of_leadsIn hlayout hm hne hleads) hs
  · intro source inputs hsource hinputs i hi s? hs
    have hleads := leadsIn_of_inputs hlayout hm hsource hinputs hi
    exact timestamp?_before hfiles hleads.straight (not_writes_of_leadsIn hlayout hm hne hleads) hs

theorem current_of_rebuild (hrun : p.rebuild compile n w = .ok () w') :
    w'.files.current = w.files.current :=
  (evolves_of_rebuild hrun).current

theorem needsRebuild_before_turns (hlayout : IsLaidOut p names w.files.current)
    (hnamed : NamesModules compile) (hsub : ∀ k ∈ order, k ∈ names) (hm : m ∈ names)
    (haway : m ∉ order) (hrun : Turns p compile w order built w') {b : Bool}
    (h : p.needsRebuild w'.files m = .ok b) : p.needsRebuild w.files m = .ok b := by
  induction hrun with
  | done w => exact h
  | fresh _ _ ih =>
      exact ih hlayout (fun k hk => hsub k (by simp [hk])) (fun hk => haway (by simp [hk])) h
  | @stale w u w' n order built _ hrebuild _ ih =>
      have hu := ih (current_of_rebuild hrebuild ▸ hlayout) (fun k hk => hsub k (by simp [hk]))
        (fun hk => haway (by simp [hk])) h
      rw [← after_of_ok hrebuild] at hu
      exact needsRebuild_before_rebuild hlayout hnamed (hsub n (by simp)) hm
        (fun heq => haway (by simp [heq])) hu

/-- The stale ones of some modules, all asked in one tree. -/
def staleAmong (p : Project) (t : FileTree) (names : List ModuleName) : List ModuleName :=
  names.filter fun n => answers (p.needsRebuild t n) true

theorem staleAmong_append (p : Project) (t : FileTree) (xs ys : List ModuleName) :
    staleAmong p t (xs ++ ys) = staleAmong p t xs ++ staleAmong p t ys :=
  List.filter_append xs ys

theorem staleAmong_cons_of_stale {t : FileTree} (h : p.needsRebuild t n = .ok true)
    (order : List ModuleName) : staleAmong p t (n :: order) = n :: staleAmong p t order :=
  List.filter_cons_of_pos (answers_iff.mpr h)

theorem staleAmong_cons_of_fresh {t : FileTree} (h : p.needsRebuild t n = .ok false)
    (order : List ModuleName) : staleAmong p t (n :: order) = staleAmong p t order := by
  apply List.filter_cons_of_neg
  rw [answers_iff, h]
  simp

theorem staleAmong_congr {t u : FileTree}
    (h : ∀ k ∈ order, p.needsRebuild t k = p.needsRebuild u k) :
    staleAmong p t order = staleAmong p u order :=
  List.filter_congr fun k hk => by rw [h k hk]

theorem built_eq_staleAmong (hlayout : IsLaidOut p names w.files.current)
    (hnamed : NamesModules compile) (hsub : ∀ k ∈ order, k ∈ names) (hdistinct : order.Nodup)
    (hrun : Turns p compile w order built w') :
    (∀ k ∈ order, ∃ b, p.needsRebuild w.files k = .ok b) ∧
      built = staleAmong p w.files order := by
  induction hrun with
  | done w => simp [staleAmong]
  | @fresh w w' n order built hfresh _ ih =>
      obtain ⟨_, hrest⟩ := List.nodup_cons.mp hdistinct
      obtain ⟨hdecided, hbuilt⟩ := ih hlayout (fun k hk => hsub k (by simp [hk])) hrest
      refine ⟨?_, ?_⟩
      · intro k hk
        rcases List.mem_cons.mp hk with rfl | hk
        · exact ⟨false, hfresh⟩
        · exact hdecided k hk
      · rw [staleAmong_cons_of_fresh hfresh, hbuilt]
  | @stale w u w' n order built hstale hrebuild _ ih =>
      obtain ⟨hnot, hrest⟩ := List.nodup_cons.mp hdistinct
      have hsub' : ∀ k ∈ order, k ∈ names := fun k hk => hsub k (by simp [hk])
      obtain ⟨hdecided, hbuilt⟩ := ih (current_of_rebuild hrebuild ▸ hlayout) hsub' hrest
      -- The induction speaks of the tree after this rebuild, which is of another module.
      have hbefore : ∀ k ∈ order, ∀ b, p.needsRebuild u.files k = .ok b →
          p.needsRebuild w.files k = .ok b := by
        intro k hk b hb
        rw [← after_of_ok hrebuild] at hb
        exact needsRebuild_before_rebuild hlayout hnamed (hsub n (by simp)) (hsub' k hk)
          (fun heq => hnot (heq ▸ hk)) hb
      refine ⟨?_, ?_⟩
      · intro k hk
        rcases List.mem_cons.mp hk with rfl | hk
        · exact ⟨true, hstale⟩
        · obtain ⟨b, hb⟩ := hdecided k hk
          exact ⟨b, hbefore k hk b hb⟩
      · have hsame : staleAmong p u.files order = staleAmong p w.files order := by
          apply staleAmong_congr
          intro k hk
          obtain ⟨b, hb⟩ := hdecided k hk
          rw [hb, hbefore k hk b hb]
        rw [staleAmong_cons_of_stale hstale, hbuilt, hsame]

theorem announces_compilingLine (n : ModuleName) : announces (compilingLine n) = true := by
  simp [announces, compilingLine]

theorem printed_of_rebuild (p : Project) (compile : Compiler) (n : ModuleName) (w : Workspace) :
    ∃ lines, (after (p.rebuild compile n) w).printed = w.printed ++ lines ∧
      lines.filter announces = [compilingLine n] := by
  have hmoves : Moves (fun _ => True) (fun _ => True) (announced n w)
      (after (p.rebuild compile n) w) :=
    moves_rebuild fun c _ => within_persist_top p c.module _ _
  obtain ⟨lines, hlines, hsilent⟩ := hmoves.printed
  refine ⟨compilingLine n :: lines, by simp [hlines, announced], ?_⟩
  rw [List.filter_cons_of_pos (announces_compilingLine n),
    List.filter_eq_nil_iff.mpr (by simpa using hsilent)]

theorem printed_of_turns (hrun : Turns p compile w order built w') :
    ∃ lines, w'.printed = w.printed ++ lines ∧
      lines.filter announces = built.map compilingLine := by
  induction hrun with
  | done w => exact ⟨[], by simp⟩
  | fresh _ _ ih => exact ih
  | @stale w u w' n order built _ hrebuild _ ih =>
      obtain ⟨lines, hlines, hfilter⟩ := printed_of_rebuild p compile n w
      obtain ⟨lines', hlines', hfilter'⟩ := ih
      rw [after_of_ok hrebuild] at hlines
      refine ⟨lines ++ lines', by simp [hlines', hlines], ?_⟩
      rw [List.filter_append, hfilter, hfilter']
      rfl

/-- A build that returns rebuilds just the modules that were stale at its beginning, and
announces them in order. A build that ends with an error announces the first ones of
them. -/
theorem build_follows_status {requests : List Value} (hnames : Names requests names)
    (hdistinct : names.Nodup) (hlayout : IsLaidOut p names w.files.current)
    (hnamed : NamesModules compile) :
    (∀ built w', p.build compile requests w = .ok built w' →
      built = staleAmong p w.files names ∧
        ∃ lines, w'.printed = w.printed ++ lines ∧
          lines.filter announces = (staleAmong p w.files names).map compilingLine) ∧
      ∀ e w', p.build compile requests w = .error e w' →
        ∃ lines, w'.printed = w.printed ++ lines ∧
          lines.filter announces <+: (staleAmong p w.files names).map compilingLine := by
  refine ⟨?_, ?_⟩
  · intro built w' hrun
    have hturns := (build_eq_ok_iff hnames).mp hrun
    obtain ⟨_, hbuilt⟩ := built_eq_staleAmong hlayout hnamed (fun _ hk => hk) hdistinct hturns
    obtain ⟨lines, hlines, hfilter⟩ := printed_of_turns hturns
    exact ⟨hbuilt, lines, hlines, hbuilt ▸ hfilter⟩
  · intro e w' hrun
    obtain ⟨before, n, rest, built, u, rfl, hturns, hfails⟩ := turns_of_build_error hnames hrun
    have hsub : ∀ k ∈ before, k ∈ before ++ n :: rest := fun k hk => by simp [hk]
    obtain ⟨hbefore, _, hrest⟩ := List.nodup_append.mp hdistinct
    have hn : n ∉ before := fun hk => hrest n hk n (by simp) rfl
    obtain ⟨_, hbuilt⟩ := built_eq_staleAmong hlayout hnamed hsub hbefore hturns
    obtain ⟨lines, hlines, hfilter⟩ := printed_of_turns hturns
    have hsplit : staleAmong p w.files (before ++ n :: rest) =
        built ++ staleAmong p w.files (n :: rest) := by
      rw [staleAmong_append, hbuilt]
    rcases hfails with ⟨_, rfl⟩ | ⟨hstale, hrebuild⟩
    · refine ⟨lines, hlines, ?_⟩
      rw [hfilter, hsplit, List.map_append]
      exact List.prefix_append _ _
    · have hstale₀ := needsRebuild_before_turns hlayout hnamed hsub (by simp) hn hturns hstale
      obtain ⟨more, hmore, hlast⟩ := printed_of_rebuild p compile n u
      rw [after_of_error hrebuild] at hmore
      refine ⟨lines ++ more, by simp [hmore, hlines], ?_⟩
      rw [List.filter_append, hfilter, hlast, hsplit, staleAmong_cons_of_stale hstale₀,
        List.map_append, List.map_cons]
      exact ⟨_, by rw [List.append_assoc]; rfl⟩

theorem build_follows_status_small :
    ∃ w', smallProject.build smallCompiler [.name beta, .text "A"] smallWorkspace =
        .ok (staleAmong smallProject smallTree [beta, alpha]) w' ∧
      ∃ lines, w'.printed = lines ∧
        lines.filter announces =
          (staleAmong smallProject smallTree [beta, alpha]).map compilingLine := by
  have hnames : Names [.name beta, .text "A"] [beta, alpha] := rfl
  have hrun := returns_iff.mp (show returns
    (smallProject.build smallCompiler [.name beta, .text "A"]) smallWorkspace [beta, alpha] = true
      by decide +kernel)
  obtain ⟨hbuilt, lines, hlines, hfilter⟩ :=
    (build_follows_status (w := smallWorkspace) hnames (by decide) isLaidOut_small
      namesModules_smallCompiler).1 _ _ hrun
  exact ⟨_, hbuilt ▸ hrun, lines, hlines, hfilter⟩

end Rebuild.Proofs.StatusAgreement
