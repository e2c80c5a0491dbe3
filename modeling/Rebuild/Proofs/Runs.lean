import Rebuild.Build
import Rebuild.Proofs.Layout
import Rebuild.Proofs.Writes

namespace Rebuild.Proofs.Runs

open Rebuild.FileTree
open Rebuild.Proofs.PathNormal
open Rebuild.Proofs.Lookup
open Rebuild.Proofs.Growth
open Rebuild.Proofs.Steps
open Rebuild.Proofs.Staleness
open Rebuild.Proofs.Writes
open Rebuild.Proofs.Layout

variable {p : Project} {m : CompiledModule} {environment : Value} {externs : Content}
variable {compile : Compiler} {n : ModuleName} {w w' : Workspace}

theorem persist_eq_ok_iff {a : Artifacts} :
    p.persist m environment externs w = .ok a w' ↔
      ∃ location u unpacked v written, p.modules.locate m.name = .ok location ∧
        p.writePrimary m environment externs w = .ok a u ∧
        Support.unpack p.output p.config.supportDir Support.payloads u = .ok unpacked v ∧
        writeCompanions location.file? m.needsForeign a p.config v = .ok written w' := by
  unfold Project.persist Project.writeModule
  simp only [bind_eq_ok_iff, lift_eq_ok_iff, pure_apply]
  constructor
  · rintro ⟨location, _, ⟨hlocation, rfl⟩, b, u, hb, unpacked, v, hv, written, x, hx, h⟩
    cases h
    exact ⟨location, u, unpacked, v, written, hlocation, hb, hv, hx⟩
  · rintro ⟨location, u, unpacked, v, written, hlocation, hb, hv, hx⟩
    exact ⟨location, w, ⟨hlocation, rfl⟩, a, u, hb, unpacked, v, hv, written, w', hx, rfl⟩

theorem companions_of_writeCompanions {source : Path} {needsForeign : Bool} {a : Artifacts}
    {written : List Path}
    (h : writeCompanions (some source) needsForeign a p.config w = .ok written w') :
    ∃ inputs, p.inputs source = .ok inputs := by
  rw [writeCompanions_some_eq, bind_eq_ok_iff] at h
  obtain ⟨found, u, hu, _⟩ := h
  have hfound := (lift_eq_ok_iff.mp hu).1
  exact ⟨source :: found.values, by simp [Project.inputs, hfound, bind, Except.bind]; rfl⟩

theorem copyOthers_empty (targets : List (Extension × Path)) (w : Workspace) :
    copyOthers ∅ targets w = .ok [] w := by
  induction targets generalizing w with
  | nil => rfl
  | cons target targets ih =>
      show (pure [] >>= fun copied => copyOthers ∅ targets >>= fun more =>
        pure (copied ++ more) : BuildM (List Path)) w = _
      rw [bind_of_ok (pure_apply [] w), bind_of_ok (ih w)]
      rfl

theorem writeCompanions_none (needsForeign : Bool) (a : Artifacts) (config : Config)
    (w : Workspace) :
    writeCompanions none needsForeign a config w =
      if needsForeign then
        match writeBytes a.foreignHeader .empty w with
        | .ok r w' => .ok [r] w'
        | .error e w' => .error e w'
      else .ok [] w := by
  have himplementation : ∀ u,
      writeForeignImplementation ∅ a config u = .ok [] u := fun _ => rfl
  rw [writeCompanions_none_eq]
  unfold writeFound
  cases needsForeign with
  | false =>
      have hheader : writeForeignHeader ∅ false a config w = .ok [] w := rfl
      rw [bind_of_ok hheader, bind_of_ok (himplementation w), bind_of_ok (copyOthers_empty _ w)]
      rfl
  | true =>
      have hheader : writeForeignHeader ∅ true a config =
          writeBytes a.foreignHeader .empty >>= fun r => pure [r] := rfl
      cases hwrite : writeBytes a.foreignHeader .empty w with
      | error e u =>
          have herror : writeForeignHeader ∅ true a config w = .error e u :=
            hheader ▸ bind_of_error hwrite
          rw [bind_of_error herror]
          rfl
      | ok r u =>
          have hok : writeForeignHeader ∅ true a config w = .ok [r] u :=
            hheader ▸ bind_of_ok hwrite
          rw [bind_of_ok hok, bind_of_ok (himplementation u), bind_of_ok (copyOthers_empty _ u)]
          rfl

theorem isWritten_of_writePrimary {a : Artifacts}
    (h : p.writePrimary m environment externs w = .ok a w') :
    p.artifacts m.name = .ok a ∧ w'.now = w.now ∧
      ∀ q ∈ a.primary, IsWritten w'.files w.now q := by
  obtain ⟨texts, hplan, hall⟩ := writePrimary_eq_ok_iff.mp h
  have hmoves := (within_writePrimary (p := p) (m := m) environment externs
    fun _ _ q _ => admits_top w.files.current q).of_ok rfl h
  refine ⟨hplan.2.1, hmoves.now, fun q hq => ?_⟩
  rw [← map_primaryFiles a texts externs, List.mem_map] at hq
  obtain ⟨file, hfile, rfl⟩ := hq
  exact isWritten_of_tryWriteAll hall file hfile

theorem isWritten_of_persist {a : Artifacts}
    (h : p.persist m environment externs w = .ok a w') :
    p.artifacts m.name = .ok a ∧ ∀ q ∈ a.primary, IsWritten w'.files w.now q := by
  obtain ⟨location, u, unpacked, v, written, _, hprimary, hunpack, hcompanions⟩ :=
    persist_eq_ok_iff.mp h
  obtain ⟨ha, hnow, hwritten⟩ := isWritten_of_writePrimary hprimary
  have hv := (within_unpack p.output p.config.supportDir
    fun _ _ => admits_top u.files.current _).of_ok rfl hunpack
  have hw' := (within_writeCompanions location.file? m.needsForeign (a := a) p.config
    fun q _ => admits_top v.files.current q).of_ok rfl hcompanions
  refine ⟨ha, fun q hq => ?_⟩
  rw [← hnow] at hwritten ⊢
  exact ((hwritten q hq).evolves hv.files).evolves (hv.now ▸ hw'.files)

/-- A module cannot be written because it is unknown, because its primary files cannot be
written, or because of something later. -/
theorem persist_error {e : BuildError}
    (h : p.persist m environment externs w = .error e w') :
    (p.modules.locate m.name = .error e ∧ w' = w) ∨
      p.writePrimary m environment externs w = .error e w' ∨
      ∃ a u, p.writePrimary m environment externs w = .ok a u ∧
        Moves (fun _ => True) (fun _ => True) u w' := by
  unfold Project.persist Project.writeModule at h
  cases hlocation : p.modules.locate m.name with
  | error e' =>
      rw [hlocation, bind_of_error (lift_error_apply e' w)] at h
      cases h
      exact .inl ⟨rfl, rfl⟩
  | ok location =>
      rw [hlocation, bind_of_ok (lift_ok_apply location w), bind_eq_error_iff] at h
      rcases h with hprimary | ⟨a, u, hprimary, hrest⟩
      · exact .inr (.inl hprimary)
      · refine .inr (.inr ⟨a, u, hprimary, ?_⟩)
        have hunpack : Within u.files.current (fun _ => True) (fun _ => True)
            (Support.unpack p.output p.config.supportDir Support.payloads) :=
          within_unpack _ _ fun _ _ => admits_top _ _
        refine (within_bind hunpack fun _ => within_bind ?_ fun _ => within_pure a).of_error rfl hrest
        exact within_writeCompanions _ _ _ fun q _ => admits_top _ q

theorem inputs_of_persist {a : Artifacts} {source : Path}
    (h : p.persist m environment externs w = .ok a w')
    (hsource : p.modules.locate m.name = .ok (.file source)) :
    ∃ inputs, p.inputs source = .ok inputs := by
  obtain ⟨location, u, unpacked, v, written, hlocation, _, _, hcompanions⟩ :=
    persist_eq_ok_iff.mp h
  rw [hsource, Except.ok.injEq] at hlocation
  subst hlocation
  exact companions_of_writeCompanions hcompanions

def compilingLine (n : ModuleName) : String :=
  "Compiling " ++ n.text

/-- A compiler answers with the module it was asked for. -/
def NamesModules (compile : Compiler) : Prop :=
  ∀ t n c, compile t n = .ok c → c.module.name = n

def announced (n : ModuleName) (w : Workspace) : Workspace :=
  { w with printed := w.printed ++ [compilingLine n] }

theorem rebuild_apply (p : Project) (compile : Compiler) (n : ModuleName) (w : Workspace) :
    p.rebuild compile n w =
      match compile w.files n with
      | .error e => .error e (announced n w)
      | .ok c =>
        match p.persist c.module c.environment c.externs (announced n w) with
        | .ok _ w' => .ok () w'
        | .error e w' => .error e w' := by
  have hreport : report (.compiling (.name n)) w = .ok () (announced n w) := rfl
  unfold Project.rebuild
  rw [bind_of_ok hreport, bind_of_ok (get_apply _)]
  show (monadLift (compile w.files n) >>= _ : BuildM Unit) (announced n w) = _
  cases compile w.files n with
  | error e => rfl
  | ok c =>
      rw [bind_of_ok (lift_ok_apply c _)]
      cases hpersist : p.persist c.module c.environment c.externs (announced n w) with
      | ok a w' =>
          rw [bind_of_ok hpersist]
          simp [hpersist]
      | error e w' =>
          rw [bind_of_error hpersist]
          simp [hpersist]

theorem rebuild_eq_ok_iff :
    p.rebuild compile n w = .ok () w' ↔
      ∃ c a, compile w.files n = .ok c ∧
        p.persist c.module c.environment c.externs (announced n w) = .ok a w' := by
  rw [rebuild_apply]
  cases compile w.files n with
  | error e => simp
  | ok c =>
      cases hpersist : p.persist c.module c.environment c.externs (announced n w) with
      | ok a u => simp [hpersist]
      | error e u => simp [hpersist]

theorem build_cons_apply {v : Value} (rest : List Value) (hv : ModuleName.ofValue v = .ok n) :
    p.build compile (v :: rest) w =
      match p.needsRebuild w.files n with
      | .error e => .error e w
      | .ok false => p.build compile rest w
      | .ok true =>
        match p.rebuild compile n w with
        | .error e u => .error e u
        | .ok () u =>
          match p.build compile rest u with
          | .error e w' => .error e w'
          | .ok names w' => .ok (n :: names) w' := by
  rw [Project.build, hv, bind_of_ok (lift_ok_apply n w), bind_of_ok (get_apply w)]
  cases p.needsRebuild w.files n with
  | error e => rfl
  | ok stale =>
      rw [bind_of_ok (lift_ok_apply stale w)]
      cases stale with
      | false => rfl
      | true =>
          show (p.rebuild compile n >>= _ : BuildM (List ModuleName)) w = _
          cases hrebuild : p.rebuild compile n w with
          | error e u => rw [bind_of_error hrebuild]
          | ok _ u =>
              rw [bind_of_ok hrebuild]
              cases hrest : p.build compile rest u with
              | error e w' =>
                  rw [bind_of_error hrest]
                  simp [hrest]
              | ok names w' =>
                  rw [bind_of_ok hrest]
                  simp [hrest]

def Names (requests : List Value) (names : List ModuleName) : Prop :=
  requests.map ModuleName.ofValue = names.map .ok

/-- The turns of modules lead from one workspace to another and rebuild some of the
modules. -/
inductive Turns (p : Project) (compile : Compiler) :
    Workspace → List ModuleName → List ModuleName → Workspace → Prop
  | done (w : Workspace) : Turns p compile w [] [] w
  | fresh {w w' : Workspace} {n : ModuleName} {names built : List ModuleName} :
      p.needsRebuild w.files n = .ok false → Turns p compile w names built w' →
        Turns p compile w (n :: names) built w'
  | stale {w u w' : Workspace} {n : ModuleName} {names built : List ModuleName} :
      p.needsRebuild w.files n = .ok true → p.rebuild compile n w = .ok () u →
        Turns p compile u names built w' → Turns p compile w (n :: names) (n :: built) w'

theorem moves_rebuild {D W : Location → Prop}
    (h : ∀ c, compile w.files n = .ok c →
      Within w.files.current D W (p.persist c.module c.environment c.externs)) :
    Moves D W (announced n w) (after (p.rebuild compile n) w) := by
  unfold after
  rw [rebuild_apply]
  cases hc : compile w.files n with
  | error e => exact Moves.refl _
  | ok c =>
      have hwithin := h c hc
      cases hpersist : p.persist c.module c.environment c.externs (announced n w) with
      | ok a w' => simpa [hpersist] using hwithin.of_ok (w := announced n w) rfl hpersist
      | error e w' => simpa [hpersist] using hwithin.of_error (w := announced n w) rfl hpersist

theorem evolves_of_rebuild (h : p.rebuild compile n w = .ok () w') :
    Evolves w.now (fun _ => True) (fun _ => True) w.files w'.files := by
  rw [← after_of_ok h]
  exact (moves_rebuild fun c _ => within_persist_top p c.module _ _).files

theorem below_of_turns {names built : List ModuleName}
    (h : Turns p compile w names built w') : Below w.files w'.files := by
  induction h with
  | done w => exact Below.refl _
  | fresh _ _ ih => exact ih
  | stale _ hrebuild _ ih => exact (evolves_of_rebuild hrebuild).below.trans ih

/-- At its turn a module cannot be rebuilt, or it is unknown whether it has to be. -/
def Fails (p : Project) (compile : Compiler) (w : Workspace) (n : ModuleName)
    (e : BuildError) (w' : Workspace) : Prop :=
  (p.needsRebuild w.files n = .error e ∧ w' = w) ∨
    (p.needsRebuild w.files n = .ok true ∧ p.rebuild compile n w = .error e w')

theorem build_eq_ok_iff {requests : List Value} {names built : List ModuleName}
    (h : Names requests names) :
    p.build compile requests w = .ok built w' ↔ Turns p compile w names built w' := by
  induction requests generalizing names built w with
  | nil =>
      have hnames : names = [] := by simpa [Names, eq_comm] using h
      subst hnames
      constructor
      · intro hrun
        cases hrun
        exact .done _
      · rintro ⟨⟩
        rfl
  | cons v rest ih =>
      cases names with
      | nil => simp [Names] at h
      | cons n names =>
          simp only [Names, List.map_cons, List.cons.injEq] at h
          rw [build_cons_apply rest h.1]
          constructor
          · intro hrun
            split at hrun
            · cases hrun
            · rename_i hfresh
              exact .fresh hfresh ((ih h.2).mp hrun)
            · rename_i hstale
              split at hrun
              · cases hrun
              · rename_i u hrebuild
                split at hrun
                · cases hrun
                · rename_i built' w'' hrest
                  cases hrun
                  exact .stale hstale hrebuild ((ih h.2).mp hrest)
          · rintro (_ | ⟨hfresh, hrest⟩ | ⟨hstale, hrebuild, hrest⟩)
            · simp only [hfresh]
              exact (ih h.2).mpr hrest
            · simp only [hstale, hrebuild, (ih h.2).mpr hrest]

theorem turns_of_build_error {requests : List Value} {names : List ModuleName}
    {e : BuildError} (h : Names requests names)
    (hrun : p.build compile requests w = .error e w') :
    ∃ before n rest built u, names = before ++ n :: rest ∧
      Turns p compile w before built u ∧ Fails p compile u n e w' := by
  induction requests generalizing names w with
  | nil => cases hrun
  | cons v rest ih =>
      cases names with
      | nil => simp [Names] at h
      | cons n names =>
          simp only [Names, List.map_cons, List.cons.injEq] at h
          rw [build_cons_apply rest h.1] at hrun
          split at hrun
          · rename_i hunknown
            cases hrun
            exact ⟨[], n, names, [], _, rfl, .done _, .inl ⟨hunknown, rfl⟩⟩
          · rename_i hfresh
            obtain ⟨before, m, after, built, u, rfl, hturns, hfails⟩ := ih h.2 hrun
            exact ⟨n :: before, m, after, built, u, rfl, .fresh hfresh hturns, hfails⟩
          · rename_i hstale
            split at hrun
            · rename_i hrebuild
              cases hrun
              exact ⟨[], n, names, [], _, rfl, .done _, .inr ⟨hstale, hrebuild⟩⟩
            · rename_i u hrebuild
              split at hrun
              · rename_i hrest
                cases hrun
                obtain ⟨before, m, after, built, u', rfl, hturns, hfails⟩ := ih h.2 hrest
                exact ⟨n :: before, m, after, n :: built, u', rfl,
                  .stale hstale hrebuild hturns, hfails⟩
              · cases hrun

def alpha : ModuleName := ⟨"A", by decide, by decide⟩

def beta : ModuleName := ⟨"B", by decide, by decide⟩

/-- A surrogate that stands alone. -/
def surrogateText : CodeText :=
  ⟨[.surrogate ⟨0, Nat.zero_lt_succ _⟩]⟩

/-- A project with a module that a source backs and one that is always rebuilt. -/
def smallProject : Project where
  output := .parse "out"
  modules := ⟨.ofList [(alpha, .file (.parse "src/A.purs")), (beta, .governed .always)]⟩
  config := .default
  render := Declarations.plainRenderer

def plainExt : Extension := Config.default.otherExts.get ⟨0, by decide⟩

def inlineExt : Extension := Config.default.otherExts.get ⟨1, by decide⟩

def smallArtifacts : Artifacts where
  directory := .parse "out/A"
  implementation := .parse "out/A/A.cc"
  header := .parse "out/A/A.hh"
  externs := .parse "out/A/externs.json"
  foreignHeader := .parse "out/A/A_ffi.hh"
  foreignImplementation := .parse "out/A/A_ffi.cc"
  foreignOthers := ⟨[(plainExt, .parse "out/A/A_ffi.h"), (inlineExt, .parse "out/A/A_ffi.inl")]⟩

theorem artifacts_small : smallProject.artifacts alpha = .ok smallArtifacts :=
  answers_iff.mp (by decide +kernel)

def smallCompiler : Compiler :=
  fun _ n => .ok ⟨⟨n, [.text n.text], []⟩, .null, .bytes .empty⟩

def smallTree : FileTree :=
  (∅ : FileTree)
    |>.place "src" [] .directory rfl (by decide)
    |>.place "A.purs" ["src"] (.file .empty ⟨0, 0⟩) (by decide) (by decide)
    |>.place "out" [] .directory rfl (by decide)
    |>.place "PureScript" ["out"] .directory (by decide) (by decide)

/-- A tree in which a file stands where the support files belong. -/
def blockedTree : FileTree :=
  (∅ : FileTree)
    |>.place "out" [] .directory rfl (by decide)
    |>.place "PureScript" ["out"] (.file .empty ⟨0, 0⟩) (by decide) (by decide)

def smallWorkspace : Workspace :=
  ⟨smallTree, ⟨1, 0⟩, []⟩

def builtWorkspace : Workspace :=
  after (smallProject.build smallCompiler [.name alpha]) smallWorkspace

theorem isLaidOut_small : IsLaidOut smallProject [beta, alpha] smallTree.current where
  config := ⟨by decide, by decide, by decide, by decide, by decide⟩
  segments := by decide
  support := by decide
  output := by decide
  sources := by
    intro n hn source hsource
    rcases List.mem_cons.mp hn with rfl | hn
    · cases hsource
    · cases List.mem_singleton.mp hn
      cases hsource
      decide

theorem namesModules_smallCompiler : NamesModules smallCompiler := by
  rintro t n c ⟨⟩
  rfl

end Rebuild.Proofs.Runs
