import Rebuild.FileTree.Changes
import Rebuild.Proofs.Fixpoint

namespace Rebuild.Proofs.Footprint

open Rebuild.FileTree
open Rebuild.Proofs.Lookup
open Rebuild.Proofs.Growth
open Rebuild.Proofs.Steps
open Rebuild.Proofs.Runs
open Rebuild.Proofs.Fixpoint

variable {p : Project} {compile : Compiler} {n : ModuleName} {w : Workspace}

def returned (compile : Compiler) (t : FileTree) (n : ModuleName) : List ModuleName :=
  match compile t n with
  | .error _ => []
  | .ok c => [c.module.name]

def compiled (p : Project) (compile : Compiler) : List Value → Workspace → List ModuleName
  | [], _ => []
  | v :: rest, w =>
    match ModuleName.ofValue v with
    | .error _ => []
    | .ok n =>
      match p.needsRebuild w.files n with
      | .error _ => []
      | .ok false => compiled p compile rest w
      | .ok true =>
        returned compile w.files n ++
          match p.rebuild compile n w with
          | .error _ _ => []
          | .ok () u => compiled p compile rest u

/-- A compiler that answers with the modules it was asked for returns in the course of a
build just what the build returns in the end. -/
theorem compiled_eq_built (hnamed : NamesModules compile) {requests : List Value}
    {names built : List ModuleName} {w' : Workspace} (hnames : Names requests names)
    (hrun : p.build compile requests w = .ok built w') :
    compiled p compile requests w = built := by
  induction requests generalizing names built w with
  | nil =>
      cases hrun
      rfl
  | cons v rest ih =>
      cases names with
      | nil => simp [Names] at hnames
      | cons n names =>
          have hv : ModuleName.ofValue v = .ok n := (List.cons.inj hnames).1
          have hrest : Names rest names := (List.cons.inj hnames).2
          cases (build_eq_ok_iff hnames).mp hrun with
          | fresh hfresh hturns =>
              simp only [compiled, hv, hfresh]
              exact ih hrest ((build_eq_ok_iff hrest).mpr hturns)
          | stale hstale hrebuild hturns =>
              obtain ⟨c, a, hc, _⟩ := rebuild_eq_ok_iff.mp hrebuild
              simp only [compiled, hv, hstale, returned, hc, hrebuild, hnamed _ n c hc]
              rw [ih hrest ((build_eq_ok_iff hrest).mpr hturns)]
              rfl

theorem targets_subset {names names' : List ModuleName} (h : names ⊆ names') :
    targets p names ⊆ targets p names' := by
  intro q hq
  rcases List.mem_append.mp hq with hq | hq
  · obtain ⟨n, hn, hq⟩ := List.mem_flatMap.mp hq
    exact List.mem_append_left _ (List.mem_flatMap.mpr ⟨n, h hn, hq⟩)
  · exact List.mem_append_right _ hq

/-- A run only wrote files at the ends of some paths and made directories on the way
there. -/
structure GrowsTo (paths : List Path) (w w' : Workspace) : Prop where
  now : w'.now = w.now
  files : Evolves w.now (OnWays w.files.current paths) (Ends w.files.current paths)
    w.files w'.files

theorem GrowsTo.refl (paths : List Path) (w : Workspace) : GrowsTo paths w w :=
  ⟨rfl, Evolves.refl w.files⟩

theorem GrowsTo.trans {paths : List Path} {u v : Workspace} (h : GrowsTo paths w u)
    (h' : GrowsTo paths u v) : GrowsTo paths w v := by
  have hfiles := h'.files
  rw [h.now, h.files.current] at hfiles
  exact ⟨h'.now.trans h.now, h.files.trans hfiles⟩

theorem GrowsTo.mono {paths paths' : List Path} {w' : Workspace} (h : GrowsTo paths w w')
    (hsub : paths ⊆ paths') : GrowsTo paths' w w' :=
  ⟨h.now, h.files.mono (fun _ ⟨q, hq, hl⟩ => ⟨q, hsub hq, hl⟩)
    fun _ ⟨q, hq, hl⟩ => ⟨q, hsub hq, hl⟩⟩

theorem growsTo_rebuild (p : Project) (compile : Compiler) (n : ModuleName) (w : Workspace) :
    GrowsTo (targets p (returned compile w.files n)) w (after (p.rebuild compile n) w) := by
  have hpersist : ∀ c, compile w.files n = .ok c →
      Within w.files.current (OnWays w.files.current (targets p (returned compile w.files n)))
        (Ends w.files.current (targets p (returned compile w.files n)))
        (p.persist c.module c.environment c.externs) := by
    intro c hc
    have hn : c.module.name ∈ returned compile w.files n := by simp [returned, hc]
    apply within_persist
    · exact fun a ha q hq => admits_ends _ (mem_targets_of_artifacts hn ha hq)
    · exact fun file hfile => admits_ends _ (mem_targets_of_payloads p _ hfile)
  have hmoves := moves_rebuild hpersist
  exact ⟨hmoves.now, hmoves.files⟩

theorem after_build_unreadable {v : Value} {e : BuildError} (rest : List Value)
    (hv : ModuleName.ofValue v = .error e) : after (p.build compile (v :: rest)) w = w := by
  apply after_of_error (e := e)
  rw [Project.build, hv, bind_of_error (lift_error_apply e w)]

theorem after_build_cons {v : Value} (rest : List Value) (hv : ModuleName.ofValue v = .ok n) :
    after (p.build compile (v :: rest)) w =
      match p.needsRebuild w.files n with
      | .error _ => w
      | .ok false => after (p.build compile rest) w
      | .ok true =>
        match p.rebuild compile n w with
        | .error _ u => u
        | .ok () u => after (p.build compile rest) u := by
  unfold after
  rw [build_cons_apply rest hv]
  rcases p.needsRebuild w.files n with e | _ | _
  · rfl
  · rfl
  · rcases p.rebuild compile n w with ⟨_, u⟩ | ⟨e, u⟩
    · simp only
      cases p.build compile rest u <;> rfl
    · rfl

/-- A build changes only what belongs to the modules compiled in it. -/
theorem growsTo_build (p : Project) (compile : Compiler) (requests : List Value)
    (w : Workspace) :
    GrowsTo (targets p (compiled p compile requests w)) w
      (after (p.build compile requests) w) := by
  -- The paths a turn may write are among those of the whole build, so the turns compose.
  induction requests generalizing w with
  | nil => exact GrowsTo.refl _ w
  | cons v rest ih =>
      cases hv : ModuleName.ofValue v with
      | error e =>
          rw [after_build_unreadable rest hv]
          exact GrowsTo.refl _ w
      | ok n =>
          simp only [after_build_cons rest hv, compiled, hv]
          cases hstale : p.needsRebuild w.files n with
          | error e => exact GrowsTo.refl _ w
          | ok stale =>
              cases stale with
              | false => exact ih w
              | true =>
                  have hstep := growsTo_rebuild p compile n w
                  cases hrebuild : p.rebuild compile n w with
                  | error e u =>
                      rw [after_of_error hrebuild] at hstep
                      simpa using hstep
                  | ok _ u =>
                      rw [after_of_ok hrebuild] at hstep
                      exact (hstep.mono (targets_subset (List.subset_append_left _ _))).trans
                        ((ih u).mono (targets_subset (List.subset_append_right _ _)))

theorem after_build_of_fresh {requests : List Value}
    (h : ∀ v ∈ requests, ∀ n, ModuleName.ofValue v = .ok n →
      p.needsRebuild w.files n ≠ .ok true) :
    after (p.build compile requests) w = w := by
  induction requests with
  | nil => rfl
  | cons v rest ih =>
      cases hv : ModuleName.ofValue v with
      | error e => exact after_build_unreadable rest hv
      | ok n =>
          rw [after_build_cons rest hv]
          cases hstale : p.needsRebuild w.files n with
          | error e => rfl
          | ok stale =>
              cases stale with
              | false => exact ih fun x hx => h x (List.mem_cons_of_mem v hx)
              | true => exact absurd hstale (h v List.mem_cons_self n hv)

/-- A difference that a run which may write some paths accounts for: a file with the time
of the run at the end of such a path, or a new directory on the way to one. -/
inductive IsOwnChange (t : FileTree) (now : MTime) (paths : List Path) : Change → Prop
  | wrote {q : Path} (content : ByteArray) :
      q ∈ paths → t.get? (endOf t.current q) ≠ some .directory →
        IsOwnChange t now paths (.wroteFile (endOf t.current q) content now)
  | made {q : Path} {l : Location} :
      q ∈ paths → IsOnWay t.current q l → t.get? l = none →
        IsOwnChange t now paths (.madeDirectory l)

theorem changeAt_of_same {t t' : FileTree} {l : Location} (h : t'.get? l = t.get? l) :
    changeAt t t' l = none := by
  unfold changeAt
  rw [h]
  cases t.get? l with
  | none => rfl
  | some e => cases e <;> simp

theorem isOwnChange_of_growsTo {paths : List Path} {w' : Workspace} (h : GrowsTo paths w w')
    {l : Location} {change : Change} (hchange : changeAt w.files w'.files l = some change) :
    IsOwnChange w.files w.now paths change := by
  rcases h.files.entry l with hsame | ⟨⟨q, hq, hway⟩, hnone, hdir⟩ |
      ⟨⟨q, hq, rfl⟩, hndir, content, hfile⟩
  · simp [changeAt_of_same hsame] at hchange
  · simp only [changeAt, hnone, hdir, reduceCtorEq, if_false, Option.some.injEq] at hchange
    exact hchange ▸ .made hq hway hnone
  · simp only [changeAt, hfile] at hchange
    split at hchange
    · cases hchange
    · cases hchange
      exact .wrote content hq hndir

/-- However a build ends, each difference it makes is a file written at an output of a
module compiled in it or at a support file, or a directory on the way to one of these;
nothing is taken away. A build in which no requested module is stale changes nothing and
prints nothing. -/
theorem build_changes_own (p : Project) (compile : Compiler) (requests : List Value)
    (w : Workspace) :
    (∀ l change,
      changeAt w.files (after (p.build compile requests) w).files l = some change →
        IsOwnChange w.files w.now (targets p (compiled p compile requests w)) change) ∧
      ((∀ v ∈ requests, ∀ n, ModuleName.ofValue v = .ok n →
          p.needsRebuild w.files n ≠ .ok true) →
        after (p.build compile requests) w = w) :=
  ⟨fun _ _ => isOwnChange_of_growsTo (growsTo_build p compile requests w),
    after_build_of_fresh⟩

theorem build_changes_own_small :
    (∃ change, changeAt smallTree builtWorkspace.files ["A.hh", "A", "out"] = some change ∧
        IsOwnChange smallTree ⟨1, 0⟩
          (targets smallProject (compiled smallProject smallCompiler [.name alpha] smallWorkspace))
          change) ∧
      after (smallProject.build smallCompiler [.name alpha]) builtWorkspace = builtWorkspace := by
  have hwritten :
      (changeAt smallTree builtWorkspace.files ["A.hh", "A", "out"]).isSome = true := by
    decide +kernel
  have hfresh : smallProject.needsRebuild builtWorkspace.files alpha = .ok false :=
    answers_iff.mp (by decide +kernel)
  obtain ⟨change, hchange⟩ := Option.isSome_iff_exists.mp hwritten
  refine ⟨⟨change, hchange, ?_⟩, ?_⟩
  · exact (build_changes_own smallProject smallCompiler [.name alpha] smallWorkspace).1
      _ change hchange
  · refine (build_changes_own smallProject smallCompiler [.name alpha] builtWorkspace).2 ?_
    intro v hv n hn
    obtain rfl := List.mem_singleton.mp hv
    obtain rfl : alpha = n := Except.ok.inj hn
    simp [hfresh]

end Rebuild.Proofs.Footprint
