import Rebuild.Proofs.Runs

/-!
A successful build leaves nothing to do. Once a module has had its turn, only its
policy can ask for another rebuild, and no later turn changes that: later turns
write at the time of the build and never to an input.
-/

namespace Rebuild.Proofs.Fixpoint

open Rebuild.FileTree
open Rebuild.Proofs.PathNormal
open Rebuild.Proofs.Lookup
open Rebuild.Proofs.Growth
open Rebuild.Proofs.Steps
open Rebuild.Proofs.Staleness
open Rebuild.Proofs.Writes
open Rebuild.Proofs.Runs

def targets (p : Project) (names : List ModuleName) : List Path :=
  (names.flatMap fun n => (p.artifacts n).toOption.elim [] Artifacts.all) ++
    Support.payloads.map fun file => (p.output.normalize.child p.config.supportDir).child file.1

theorem mem_targets_of_artifacts {p : Project} {names : List ModuleName} {n : ModuleName}
    {a : Artifacts} {q : Path} (hn : n ∈ names) (ha : p.artifacts n = .ok a) (hq : q ∈ a.all) :
    q ∈ targets p names :=
  List.mem_append_left _ (List.mem_flatMap.mpr ⟨n, hn, by simpa [ha, Except.toOption] using hq⟩)

theorem mem_targets_of_payloads (p : Project) (names : List ModuleName)
    {file : String × Content} (hfile : file ∈ Support.payloads) :
    (p.output.normalize.child p.config.supportDir).child file.1 ∈ targets p names :=
  List.mem_append_right _ (List.mem_map.mpr ⟨file, hfile, rfl⟩)

def inputsOf (p : Project) (names : List ModuleName) : List Path :=
  names.flatMap fun n =>
    match p.modules.locations.get? n with
    | some (.file source) => (p.inputs source).toOption.getD []
    | _ => []

theorem mem_inputsOf {p : Project} {names : List ModuleName} {n : ModuleName}
    {source i : Path} {inputs : List Path} (hn : n ∈ names)
    (hsource : p.modules.locate n = .ok (.file source)) (hinputs : p.inputs source = .ok inputs)
    (hi : i ∈ inputs) : i ∈ inputsOf p names := by
  refine List.mem_flatMap.mpr ⟨n, hn, ?_⟩
  unfold ModuleMap.locate at hsource
  split at hsource
  · rename_i location hlocation
    cases hsource
    simpa [hlocation, hinputs, Except.toOption] using hi
  · cases hsource

/-- Seen from the current directory, no input of the modules lies where a build of them
writes. No double dot is in any of these paths, and the inputs are not too long. -/
structure Apart (p : Project) (names : List ModuleName) (current : Location) : Prop where
  targets : ∀ q ∈ targets p names, IsStraight q
  inputs : ∀ i ∈ inputsOf p names, IsStraight i ∧ Fits i
  places : ∀ i ∈ inputsOf p names, ∀ q ∈ Fixpoint.targets p names,
    placeFrom current i ≠ placeFrom current q

/-- The places that a build of the modules may write. -/
def TargetPlace (p : Project) (names : List ModuleName) (current : Location) (l : Location) :
    Prop :=
  ∃ q ∈ targets p names, l = placeFrom current q

def isAlways (p : Project) (n : ModuleName) : Bool :=
  p.modules.locations.get? n = some (.governed .always)

/-- Every file of the tree is at most as young as what is written at a time. -/
def NoneAfter (now : MTime) (t : FileTree) : Prop :=
  ∀ l content modified, t.get? l = some (.file content modified) →
    modified.timestamp ≤ now.timestamp

/-- The outputs of the module are there, and only its policy can ask for a rebuild. -/
def Settled (p : Project) (t : FileTree) (n : ModuleName) : Prop :=
  ∃ location a, p.modules.locate n = .ok location ∧ p.artifacts n = .ok a ∧
    (∀ q ∈ a.primary, ∃ s, t.timestamp? q = .ok (some s)) ∧
    (location = .governed .always ∨ IsUpToDate p t a location)

variable {p : Project} {compile : Compiler} {names : List ModuleName} {n : ModuleName}

theorem isAlways_iff : isAlways p n = true ↔ p.modules.locate n = .ok (.governed .always) := by
  unfold isAlways ModuleMap.locate
  cases p.modules.locations.get? n <;> simp

section

variable {now : MTime} {D W : Location → Prop} {t t' : FileTree}

theorem NoneAfter.evolves (h : NoneAfter now t) (ht : Evolves now D W t t') :
    NoneAfter now t' := by
  intro l content modified hl
  rcases ht.entry l with hsame | ⟨_, _, hdir⟩ | ⟨_, _, content', hfile⟩
  · exact h l content modified (hsame ▸ hl)
  · simp [hdir] at hl
  · rw [hfile] at hl
    cases hl
    exact Int.le_refl _

theorem NoneAfter.timestamp? (h : NoneAfter now t) {q : Path} {s : Timestamp}
    (hq : t.timestamp? q = .ok (some s)) : s ≤ now.timestamp := by
  obtain ⟨l, content, modified, _, hfile, rfl⟩ := timestamp?_eq_some_iff.mp hq
  exact h l content modified hfile

theorem timestamp?_advances (h : NoneAfter now t) (ht : Evolves now D W t t') {q : Path}
    {s : Timestamp} (hq : t.timestamp? q = .ok (some s)) :
    ∃ s', t'.timestamp? q = .ok (some s') ∧ s ≤ s' := by
  obtain ⟨l, content, modified, hl, hfile, rfl⟩ := timestamp?_eq_some_iff.mp hq
  have hl' := resolve_below ht.below hl
  rcases ht.file hfile with hsame | ⟨_, content', hfile'⟩
  · exact ⟨_, timestamp?_eq_some_iff.mpr ⟨l, content, modified, hl', hsame, rfl⟩,
      Int.le_refl _⟩
  · exact ⟨_, timestamp?_eq_some_iff.mpr ⟨l, content', now, hl', hfile', rfl⟩,
      h l content modified hfile⟩

end

theorem needsRebuild_of_settled {t : FileTree} (h : Settled p t n) :
    p.needsRebuild t n = .ok (isAlways p n) := by
  obtain ⟨location, a, hlocation, ha, hprimary, hcase⟩ := h
  cases halways : isAlways p n with
  | false =>
      have huptodate : IsUpToDate p t a location := by
        rcases hcase with rfl | huptodate
        · rw [isAlways_iff.mpr hlocation] at halways
          cases halways
        · exact huptodate
      exact needsRebuild_eq_false_iff.mpr ⟨location, a, hlocation, ha, hprimary, huptodate⟩
  | true =>
      rw [isAlways_iff, hlocation, Except.ok.injEq] at halways
      obtain ⟨stamps, b, hstamps, hb⟩ := exists_earliest (by simp [Artifacts.primary]) hprimary
      refine needsRebuild_eq_ok_iff.mpr
        ⟨location, some b, hlocation, ?_, .inr ⟨b, .policy .always, rfl, ?_, rfl⟩⟩
      · exact outputTimestamp_eq_ok_iff.mpr ⟨a, stamps, ha, hstamps, hb⟩
      · rw [halways]
        rfl

theorem settled_of_needsRebuild {t : FileTree} (h : p.needsRebuild t n = .ok false) :
    Settled p t n := by
  obtain ⟨location, a, hlocation, ha, hprimary, huptodate⟩ := needsRebuild_eq_false_iff.mp h
  exact ⟨location, a, hlocation, ha, hprimary, .inr huptodate⟩

theorem Settled.evolves {t t' : FileTree} {now : MTime} {D : Location → Prop}
    (h : Settled p t n) (hn : n ∈ names) (hapart : Apart p names t.current)
    (hold : NoneAfter now t) (ht : Evolves now D (TargetPlace p names t.current) t t') :
    Settled p t' n := by
  obtain ⟨location, a, hlocation, ha, hprimary, hcase⟩ := h
  refine ⟨location, a, hlocation, ha, ?_, ?_⟩
  · intro q hq
    obtain ⟨s, hs⟩ := hprimary q hq
    obtain ⟨s', hs', _⟩ := timestamp?_advances hold ht hs
    exact ⟨s', hs'⟩
  · rcases hcase with halways | huptodate
    · exact .inl halways
    · right
      cases location with
      | governed policy => exact huptodate
      | file source =>
          obtain ⟨inputs, hinputs, hstamps, hle⟩ := huptodate
          -- No input is a target, so inputs keep their age while outputs only get younger.
          have hsame : ∀ i ∈ inputs, t'.timestamp? i = t.timestamp? i := by
            intro i hi
            have hinput : i ∈ inputsOf p names := mem_inputsOf hn hlocation hinputs hi
            obtain ⟨hstraight, hfits⟩ := hapart.inputs i hinput
            apply timestamp?_of_apart ht hstraight hfits
            rintro ⟨q, hq, hplace⟩
            exact hapart.places i hinput q hq hplace
          refine ⟨inputs, hinputs, fun i hi => hsame i hi ▸ hstamps i hi, ?_⟩
          intro i hi q hq s o hs ho
          rw [hsame i hi] at hs
          obtain ⟨o₀, ho₀⟩ := hprimary q hq
          obtain ⟨o', ho', hadvance⟩ := timestamp?_advances hold ht ho₀
          have hoo : o' = o := by simpa [ho] using ho'.symm
          subst hoo
          exact Int.le_trans (hle i hi q hq s o₀ hs ho₀) hadvance

section

variable {w w' : Workspace}

theorem admits_of_mem_targets {current : Location} (hapart : Apart p names current) {q : Path}
    (hq : q ∈ targets p names) :
    Admits current (fun _ => True) (TargetPlace p names current) q :=
  admits_of_straight (hapart.targets q hq) ⟨q, hq, rfl⟩ fun _ _ => trivial

/-- The rebuild of a module writes to its targets only, and settles it. -/
theorem rebuild_settles (hn : n ∈ names) (hapart : Apart p names w.files.current)
    (hold : NoneAfter w.now w.files)
    (hnamed : NamesModules compile) (h : p.rebuild compile n w = .ok () w') :
    w'.now = w.now ∧
      Evolves w.now (fun _ => True) (TargetPlace p names w.files.current) w.files w'.files ∧
      Settled p w'.files n := by
  obtain ⟨c, a, hc, hpersist⟩ := rebuild_eq_ok_iff.mp h
  have hcn := hnamed w.files n c hc
  have hwithin : Within w.files.current (fun _ => True)
      (TargetPlace p names w.files.current)
      (p.persist c.module c.environment c.externs) := by
    apply within_persist
    · intro b hb q hq
      exact admits_of_mem_targets hapart (mem_targets_of_artifacts hn (hcn ▸ hb) hq)
    · intro file hfile
      exact admits_of_mem_targets hapart (mem_targets_of_payloads p names hfile)
  have hmoves := hwithin.of_ok (w := announced n w) rfl hpersist
  obtain ⟨ha, hwritten⟩ := isWritten_of_persist hpersist
  obtain ⟨location, _, _, _, _, hlocation, _⟩ := persist_eq_ok_iff.mp hpersist
  refine ⟨hmoves.now, hmoves.files, location, a, hcn ▸ hlocation, hcn ▸ ha, ?_, ?_⟩
  · exact fun q hq => ⟨_, (hwritten q hq).timestamp?⟩
  · cases location with
    | governed policy =>
        cases policy with
        | never => exact .inr (by simp [IsUpToDate])
        | always => exact .inl rfl
    | file source =>
        have hsource : p.modules.locate n = .ok (.file source) := hcn ▸ hlocation
        obtain ⟨inputs, hinputs⟩ := inputs_of_persist hpersist hlocation
        refine .inr ⟨inputs, hinputs, ?_, ?_⟩
        · intro i hi
          exact timestamp?_of_fits w'.files
            (hapart.inputs i (mem_inputsOf hn hsource hinputs hi)).2
        · intro i hi q hq s o hs ho
          have hwritten : w'.files.timestamp? q = .ok (some w.now.timestamp) :=
            (hwritten q hq).timestamp?
          rw [hwritten, Except.ok.injEq, Option.some.injEq] at ho
          exact ho ▸ (hold.evolves hmoves.files).timestamp? hs

end

section

variable {w w' : Workspace} {order built : List ModuleName}

/-- What a turn needs and what it keeps. -/
structure Steady (p : Project) (compile : Compiler) (names : List ModuleName)
    (w : Workspace) : Prop where
  named : NamesModules compile
  apart : Apart p names w.files.current
  old : NoneAfter w.now w.files

/-- A turn keeps what the next one needs, and every module that is settled. -/
theorem Steady.rebuild (h : Steady p compile names w) (hn : n ∈ names)
    (hrun : p.rebuild compile n w = .ok () w') :
    Steady p compile names w' ∧ w'.now = w.now ∧ Settled p w'.files n ∧
      ∀ m ∈ names, Settled p w.files m → Settled p w'.files m := by
  obtain ⟨hnow, hfiles, hsettled⟩ := rebuild_settles hn h.apart h.old h.named hrun
  refine ⟨⟨h.named, hfiles.current ▸ h.apart, hnow ▸ h.old.evolves hfiles⟩, hnow, hsettled, ?_⟩
  exact fun m hm hsettled => hsettled.evolves hm h.apart h.old hfiles

theorem Steady.of_turns (h : Steady p compile names w) (hsub : ∀ n ∈ order, n ∈ names)
    (hrun : Turns p compile w order built w') :
    Steady p compile names w' ∧ w'.now = w.now ∧
      ∀ m ∈ names, Settled p w.files m ∨ m ∈ order → Settled p w'.files m := by
  -- A module is settled by its own turn at the latest, and every later turn keeps it so.
  induction hrun with
  | done w => exact ⟨h, rfl, fun m _ hm => hm.resolve_right (by simp)⟩
  | fresh hfresh _ ih =>
      obtain ⟨hsteady, hnow, hsettled⟩ := ih h fun n hn => hsub n (by simp [hn])
      refine ⟨hsteady, hnow, fun m hm hcase => hsettled m hm ?_⟩
      rcases hcase with hcase | hcase
      · exact .inl hcase
      · rcases List.mem_cons.mp hcase with rfl | hcase
        · exact .inl (settled_of_needsRebuild hfresh)
        · exact .inr hcase
  | stale _ hrebuild _ ih =>
      obtain ⟨hu, hnow, hsettled, hkept⟩ := h.rebuild (hsub _ (by simp)) hrebuild
      obtain ⟨hsteady, hnow', hsettled'⟩ := ih hu fun n hn => hsub n (by simp [hn])
      refine ⟨hsteady, hnow'.trans hnow, fun m hm hcase => hsettled' m hm ?_⟩
      rcases hcase with hcase | hcase
      · exact .inl (hkept m hm hcase)
      · rcases List.mem_cons.mp hcase with rfl | hcase
        · exact .inl hsettled
        · exact .inr hcase

theorem Steady.not_mem_built (h : Steady p compile names w)
    (hsub : ∀ n ∈ order, n ∈ names) (hn : n ∈ names) (halways : isAlways p n = false)
    (hsettled : Settled p w.files n) (hrun : Turns p compile w order built w') :
    n ∉ built := by
  induction hrun with
  | done w => simp
  | fresh _ _ ih => exact ih h (fun m hm => hsub m (by simp [hm])) hsettled
  | @stale w u w' m _ _ hstale hrebuild _ ih =>
      obtain ⟨hu, _, _, hkept⟩ := h.rebuild (hsub m (by simp)) hrebuild
      have hne : n ≠ m := by
        rintro rfl
        simp [needsRebuild_of_settled hsettled, halways] at hstale
      have hrest := ih hu (fun m hm => hsub m (by simp [hm])) (hkept n hn hsettled)
      simp [hne, hrest]

theorem Steady.count_built_le_one (h : Steady p compile names w)
    (hsub : ∀ n ∈ order, n ∈ names) (hn : n ∈ names) (halways : isAlways p n = false)
    (hrun : Turns p compile w order built w') : built.count n ≤ 1 := by
  induction hrun with
  | done w => simp
  | fresh _ _ ih => exact ih h fun m hm => hsub m (by simp [hm])
  | @stale w u w' m _ built hstale hrebuild hrest ih =>
      obtain ⟨hu, _, hsettled, _⟩ := h.rebuild (hsub m (by simp)) hrebuild
      have hsub' := fun k hk => hsub k (List.mem_cons_of_mem m hk)
      rw [List.count_cons]
      by_cases heq : m = n
      · subst heq
        have hnot := hu.not_mem_built hsub' hn halways hsettled hrest
        simp [List.count_eq_zero_of_not_mem hnot]
      · simpa [heq] using ih hu hsub'

theorem Steady.built_eq_filter (h : Steady p compile names w)
    (hsub : ∀ n ∈ order, n ∈ names) (hsettled : ∀ n ∈ names, Settled p w.files n)
    (hrun : Turns p compile w order built w') : built = order.filter (isAlways p) := by
  induction hrun with
  | done w => rfl
  | @fresh w w' n order built hfresh _ ih =>
      rw [needsRebuild_of_settled (hsettled n (hsub n (by simp))), Except.ok.injEq] at hfresh
      rw [List.filter_cons_of_neg (by simp [hfresh])]
      exact ih h (fun m hm => hsub m (by simp [hm])) hsettled
  | @stale w u w' n order built hstale hrebuild _ ih =>
      rw [needsRebuild_of_settled (hsettled n (hsub n (by simp))), Except.ok.injEq] at hstale
      obtain ⟨hu, _, _, hkept⟩ := h.rebuild (hsub n (by simp)) hrebuild
      rw [List.filter_cons_of_pos hstale, ← ih hu (fun m hm => hsub m (by simp [hm]))
        fun m hm => hkept m hm (hsettled m hm)]

end

/-- A module without a source was compiled and written, and its outputs are there. -/
structure IsReady (p : Project) (t : FileTree) (c : Compilation) (a : Artifacts)
    (texts : CodeText × CodeText) : Prop where
  governed : ∃ policy, p.modules.locate c.module.name = .ok (.governed policy)
  planned : Planned p c.module c.environment c.externs a texts
  bytes : ∀ file ∈ primaryFiles a texts c.externs, file.2.HasBytes
  outputs : ∀ q ∈ a.primary, IsFile t q
  support : t.isDirectory (p.output.normalize.child p.config.supportDir) = .ok true
  foreign : c.module.needsForeign = true → IsFile t a.foreignHeader

theorem IsReady.below {t u : FileTree} {c : Compilation} {a : Artifacts}
    {texts : CodeText × CodeText} (h : IsReady p t c a texts) (ht : Below t u) :
    IsReady p u c a texts where
  governed := h.governed
  planned := h.planned
  bytes := h.bytes
  outputs := fun q hq => (h.outputs q hq).below ht
  support := isDirectory_below ht h.support
  foreign := fun hneeds => (h.foreign hneeds).below ht

theorem isReady_of_persist {c : Compilation} {a : Artifacts} {policy : RebuildPolicy}
    {w w' : Workspace} (hgoverned : p.modules.locate c.module.name = .ok (.governed policy))
    (h : p.persist c.module c.environment c.externs w = .ok a w') :
    ∃ texts, IsReady p w'.files c a texts := by
  obtain ⟨location, u, unpacked, v, written, hlocation, hprimary, hunpack, hcompanions⟩ :=
    persist_eq_ok_iff.mp h
  obtain ⟨texts, hplan, hall⟩ := writePrimary_eq_ok_iff.mp hprimary
  have hlast := (within_writeCompanions location.file? c.module.needsForeign (a := a) p.config
    fun q _ => admits_top v.files.current q).of_ok rfl hcompanions
  refine ⟨texts, ⟨policy, hgoverned⟩, hplan, hasBytes_of_tryWriteAll hall, ?_, ?_, ?_⟩
  · exact fun q hq => ((isWritten_of_persist h).2 q hq).isFile
  · exact isDirectory_below hlast.files.below (isDirectory_of_unpack_payloads hunpack)
  · intro hneeds
    rw [hgoverned, Except.ok.injEq] at hlocation
    rw [← hlocation, SourceLocation.file?, writeCompanions_none, if_pos hneeds] at hcompanions
    cases hwrite : writeBytes a.foreignHeader .empty v with
    | error e x => simp [hwrite] at hcompanions
    | ok r x =>
        simp only [hwrite, EStateM.Result.ok.injEq] at hcompanions
        rw [← hcompanions.2]
        have hfile : writeFile a.foreignHeader (.bytes .empty) v = .ok r x :=
          writeFile_eq_ok_iff.mpr ⟨.empty, rfl, hwrite⟩
        exact (isWritten_of_writeFile hfile).isFile

theorem persist_of_isReady {c : Compilation} {a : Artifacts} {texts : CodeText × CodeText}
    {w : Workspace} (h : IsReady p w.files c a texts) :
    ∃ w', p.persist c.module c.environment c.externs w = .ok a w' := by
  obtain ⟨policy, hgoverned⟩ := h.governed
  obtain ⟨u, hall, hbelow⟩ := tryWriteAll_of_below
    (primaryFiles a texts c.externs) (Below.refl w.files) fun file hfile =>
      ⟨h.outputs file.1 (primary_of_mem_primaryFiles hfile), h.bytes file hfile⟩
  have hprimary := writePrimary_eq_ok_iff.mpr ⟨texts, h.planned, hall⟩
  have hmoves := (within_tryWriteAll (primaryFiles a texts c.externs)
    fun f _ => admits_top w.files.current f.1).of_ok rfl hall
  have hsupport := isDirectory_below hmoves.files.below h.support
  have hunpack : Support.unpack p.output p.config.supportDir Support.payloads u =
      .ok false u := by
    rw [unpack_apply, hsupport]
  have hcompanions : ∃ written w',
      writeCompanions none c.module.needsForeign a p.config u = .ok written w' := by
    rw [writeCompanions_none]
    cases hneeds : c.module.needsForeign with
    | false => exact ⟨[], u, rfl⟩
    | true =>
        obtain ⟨w', hwrite, _⟩ := writeBytes_of_below .empty hbelow (h.foreign hneeds)
        exact ⟨[a.foreignHeader.normalize], w', by simp [hwrite]⟩
  obtain ⟨written, w', hcompanions⟩ := hcompanions
  exact ⟨w', persist_eq_ok_iff.mpr
    ⟨.governed policy, u, false, u, written, hgoverned, hprimary, hunpack, hcompanions⟩⟩

section

variable {w w' : Workspace} {order built : List ModuleName}

theorem Steady.isReady_of_turns (h : Steady p compile names w)
    (hsub : ∀ n ∈ order, n ∈ names) (hrun : Turns p compile w order built w') :
    ∀ n ∈ order, isAlways p n = true →
      ∃ t c a texts, compile t n = .ok c ∧ IsReady p w'.files c a texts := by
  induction hrun with
  | done w => simp
  | fresh hfresh _ ih =>
      intro n hn halways
      rcases List.mem_cons.mp hn with rfl | hn
      · simp [needsRebuild_of_settled (settled_of_needsRebuild hfresh), halways] at hfresh
      · exact ih h (fun m hm => hsub m (by simp [hm])) n hn halways
  | @stale w u w' m _ _ _ hrebuild hrest ih =>
      have hu := (h.rebuild (hsub m (by simp)) hrebuild).1
      intro n hn halways
      rcases List.mem_cons.mp hn with rfl | hn
      · obtain ⟨c, a, hc, hpersist⟩ := rebuild_eq_ok_iff.mp hrebuild
        have hcn : c.module.name = n := h.named _ n c hc
        obtain ⟨texts, hready⟩ := isReady_of_persist
          (hcn.symm ▸ isAlways_iff.mp halways) hpersist
        exact ⟨w.files, c, a, texts, hc, hready.below (below_of_turns hrest)⟩
      · exact ih hu (fun m hm => hsub m (by simp [hm])) n hn halways

/-- Where all modules are settled and what is always rebuilt can be written again, the
build returns. -/
theorem Steady.exists_turns (h : Steady p compile names w) (hsub : ∀ n ∈ order, n ∈ names)
    (hsettled : ∀ n ∈ names, Settled p w.files n)
    (hready : ∀ n ∈ order, isAlways p n = true →
      ∃ c a texts, (∀ t, compile t n = .ok c) ∧ IsReady p w.files c a texts) :
    ∃ built w', Turns p compile w order built w' := by
  induction order generalizing w with
  | nil => exact ⟨[], w, .done w⟩
  | cons n order ih =>
      have hstale := needsRebuild_of_settled (hsettled n (hsub n (by simp)))
      have hsub' := fun m hm => hsub m (List.mem_cons_of_mem n hm)
      cases halways : isAlways p n with
      | false =>
          obtain ⟨built, w', hrest⟩ := ih h hsub' hsettled
            fun m hm => hready m (List.mem_cons_of_mem n hm)
          exact ⟨built, w', .fresh (halways ▸ hstale) hrest⟩
      | true =>
          obtain ⟨c, a, texts, hc, hc'⟩ := hready n (by simp) halways
          obtain ⟨u, hpersist⟩ := persist_of_isReady (w := announced n w) hc'
          have hrebuild : p.rebuild compile n w = .ok () u :=
            rebuild_eq_ok_iff.mpr ⟨c, a, hc w.files, hpersist⟩
          obtain ⟨hu, _, _, hkept⟩ := h.rebuild (hsub n (by simp)) hrebuild
          -- Files are never taken away, so this rebuild leaves the later ones possible.
          have hready' : ∀ m ∈ order, isAlways p m = true →
              ∃ c a texts, (∀ t, compile t m = .ok c) ∧ IsReady p u.files c a texts := by
            intro m hm hmalways
            obtain ⟨c, a, texts, hc, hc'⟩ := hready m (List.mem_cons_of_mem n hm) hmalways
            exact ⟨c, a, texts, hc, hc'.below (evolves_of_rebuild hrebuild).below⟩
          obtain ⟨built, w', hrest⟩ := ih hu hsub' (fun m hm => hkept m hm (hsettled m hm)) hready'
          exact ⟨n :: built, w', .stale (halways ▸ hstale) hrebuild hrest⟩

end

/-- After a build that returned, a module is stale only if its policy asks for a rebuild
each time, and no other module was rebuilt twice. The same build again, at a time not
before the first one, rebuilds just the modules that are always rebuilt, and it returns
if the compiler gives for them what it gave before. -/
theorem build_reaches_fixpoint {requests : List Value} {w w' : Workspace}
    {built : List ModuleName} (hnames : Names requests names)
    (hnamed : NamesModules compile)
    (hold : NoneAfter w.now w.files) (hapart : Apart p names w.files.current)
    (hrun : p.build compile requests w = .ok built w') :
    (∀ n ∈ names, p.needsRebuild w'.files n = .ok (isAlways p n)) ∧
      (∀ n ∈ names, isAlways p n = false → built.count n ≤ 1) ∧
      ∀ v : Workspace, v.files = w'.files → w'.now.timestamp ≤ v.now.timestamp →
        (∀ again v', p.build compile requests v = .ok again v' →
          again = names.filter (isAlways p)) ∧
        ((∀ n ∈ names, isAlways p n = true → ∀ t t', compile t n = compile t' n) →
          ∃ again v', p.build compile requests v = .ok again v') := by
  have hturns := (build_eq_ok_iff hnames).mp hrun
  have hsteady : Steady p compile names w := ⟨hnamed, hapart, hold⟩
  obtain ⟨hsteady', hnow, hsettles⟩ := hsteady.of_turns (fun _ hn => hn) hturns
  have hsettled : ∀ n ∈ names, Settled p w'.files n := fun n hn => hsettles n hn (.inr hn)
  refine ⟨fun n hn => needsRebuild_of_settled (hsettled n hn), ?_, ?_⟩
  · exact fun n hn halways =>
      hsteady.count_built_le_one (fun _ hm => hm) hn halways hturns
  · intro v hfiles hlater
    have hv : Steady p compile names v := by
      refine ⟨hsteady'.named, hfiles ▸ hsteady'.apart, ?_⟩
      intro l content modified hl
      exact Int.le_trans (hsteady'.old l content modified (hfiles ▸ hl)) hlater
    refine ⟨?_, ?_⟩
    · intro again v' hagain
      exact hv.built_eq_filter (fun _ hn => hn) (hfiles ▸ hsettled)
        ((build_eq_ok_iff hnames).mp hagain)
    · intro hsame
      have hready : ∀ n ∈ names, isAlways p n = true →
          ∃ c a texts, (∀ t, compile t n = .ok c) ∧ IsReady p v.files c a texts := by
        intro n hn halways
        obtain ⟨t, c, a, texts, hc, hready⟩ :=
          hsteady.isReady_of_turns (fun _ hm => hm) hturns n hn halways
        exact ⟨c, a, texts, fun t' => hsame n hn halways t' t ▸ hc, hfiles ▸ hready⟩
      obtain ⟨again, v', hagain⟩ :=
        hv.exists_turns (fun _ hn => hn) (hfiles ▸ hsettled) hready
      exact ⟨again, v', (build_eq_ok_iff hnames).mpr hagain⟩

def noneAfter (now : MTime) (entries : List (Location × Entry)) : Bool :=
  entries.all fun x =>
    match x.2 with
    | .directory => true
    | .file _ modified => modified.timestamp ≤ now.timestamp

theorem noneAfter_of_entries {now : MTime} {t : FileTree}
    (h : noneAfter now t.entries = true) : NoneAfter now t := by
  intro l content modified hl
  cases l with
  | nil => simp at hl
  | cons name parent =>
      obtain ⟨x, hx, hentry⟩ := Option.map_eq_some_iff.mp hl
      simpa [hentry] using List.all_eq_true.mp h x (List.mem_of_find?_eq_some hx)

theorem build_reaches_fixpoint_small :
    ∃ w', smallProject.build smallCompiler [.name alpha, .text "B", .name beta]
        smallWorkspace = .ok [alpha, beta, beta] w' ∧
      smallProject.needsRebuild w'.files alpha = .ok false ∧
      smallProject.needsRebuild w'.files beta = .ok true := by
  have hnames : Names [.name alpha, .text "B", .name beta] [alpha, beta, beta] := rfl
  have hrun := returns_iff.mp (show returns
    (smallProject.build smallCompiler [.name alpha, .text "B", .name beta]) smallWorkspace
      [alpha, beta, beta] = true by decide +kernel)
  have hold : NoneAfter smallWorkspace.now smallWorkspace.files :=
    noneAfter_of_entries (by decide)
  have hapart : Apart smallProject [alpha, beta, beta] smallWorkspace.files.current :=
    ⟨by decide, by decide, by decide +kernel⟩
  have hfixpoint :=
    build_reaches_fixpoint hnames namesModules_smallCompiler hold hapart hrun
  exact ⟨_, hrun, hfixpoint.1 alpha (by simp), hfixpoint.1 beta (by simp)⟩

end Rebuild.Proofs.Fixpoint
