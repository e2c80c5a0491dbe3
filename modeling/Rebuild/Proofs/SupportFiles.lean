import Rebuild.Proofs.Contents
import Rebuild.Proofs.Runs
import Rebuild.Proofs.Separation

namespace Rebuild.Proofs.SupportFiles

open Rebuild.FileTree
open Rebuild.Proofs.PathNormal
open Rebuild.Proofs.Lookup
open Rebuild.Proofs.Growth
open Rebuild.Proofs.Steps
open Rebuild.Proofs.Writes
open Rebuild.Proofs.Runs
open Rebuild.Proofs.Layout
open Rebuild.Proofs.Separation
open Rebuild.Proofs.SameWrites
open Rebuild.Proofs.Contents

/-- What a caller asks of a project: to unpack the support files, or to write a compiled
module. -/
inductive Call
  | prepare
  | persist (m : CompiledModule) (environment : Value) (externs : Content)

def Call.run (p : Project) : Call → BuildM Unit
  | .prepare => do
    let _ ← prepareOutput p.output p.config.supportDir
    return ()
  | .persist m environment externs => do
    let _ ← p.persist m environment externs
    return ()

/-- Calls one after the other, each at its own time. -/
def runCalls (p : Project) : List (MTime × Call) → BuildM Unit
  | [] => return ()
  | (now, c) :: rest => do
    modify fun w => { w with now }
    c.run p
    runCalls p rest

/-- The support files are there, each with its own bytes. -/
def HasSupportFiles (p : Project) (t : FileTree) : Prop :=
  ∀ file ∈ Support.files, t.read ((supportPath p).child file.1) = .ok file.2.toUTF8

/-- No output of a module that the call writes ends at the place of a support file. -/
def Call.Spares (p : Project) (current : Location) : Call → Prop
  | .prepare => True
  | .persist m _ _ => ∀ a, p.artifacts m.name = .ok a → ∀ q ∈ a.all,
      ∀ file ∈ Support.files, endOf current q ≠ endOf current ((supportPath p).child file.1)

/-- No primary output of a module that the call writes has the support directory on its
way. -/
def Call.KeepsOut (p : Project) (current : Location) : Call → Prop
  | .prepare => True
  | .persist m _ _ => ∀ a, p.artifacts m.name = .ok a → ∀ q ∈ a.primary,
      ¬ IsOnWay current q (endOf current (supportPath p))

section

variable {p : Project} {c : Call} {now : MTime} {calls : List (MTime × Call)}
variable {w w' : Workspace} {unpacked : Bool}

theorem runCalls_cons_eq_ok_iff :
    runCalls p ((now, c) :: calls) w = .ok () w' ↔
      ∃ u, c.run p { w with now } = .ok () u ∧ runCalls p calls u = .ok () w' := by
  have hclock : (modify fun w => { w with now } : BuildM Unit) w = .ok () { w with now } := rfl
  rw [runCalls, bind_of_ok hclock, bind_eq_ok_iff]
  exact ⟨fun ⟨_, u, hu⟩ => ⟨u, hu⟩, fun ⟨u, hu⟩ => ⟨(), u, hu⟩⟩

theorem run_prepare_eq_ok_iff :
    Call.run p .prepare w = .ok () w' ↔ ∃ unpacked,
      Support.unpack p.output p.config.supportDir Support.payloads w = .ok unpacked w' := by
  unfold Call.run prepareOutput
  simp only [bind_eq_ok_iff, pure_apply]
  constructor
  · rintro ⟨unpacked, u, hu, h⟩
    cases h
    exact ⟨unpacked, hu⟩
  · rintro ⟨unpacked, hu⟩
    exact ⟨unpacked, w', hu, rfl⟩

theorem run_persist_eq_ok_iff {m : CompiledModule} {environment : Value} {externs : Content} :
    Call.run p (.persist m environment externs) w = .ok () w' ↔
      ∃ a, p.persist m environment externs w = .ok a w' := by
  unfold Call.run
  simp only [bind_eq_ok_iff, pure_apply]
  constructor
  · rintro ⟨a, u, hu, h⟩
    cases h
    exact ⟨a, hu⟩
  · rintro ⟨a, hu⟩
    exact ⟨a, w', hu, rfl⟩

theorem mem_payloads {file : String × String} (h : file ∈ Support.files) :
    (file.1, Content.bytes file.2.toUTF8) ∈ Support.payloads :=
  List.mem_map.mpr ⟨file, h, rfl⟩

theorem hasSupportFiles_of_unpack
    (habsent : w.files.get? (endOf w.files.current (supportPath p)) ≠ some .directory)
    (h : Support.unpack p.output p.config.supportDir Support.payloads w = .ok unpacked w') :
    HasSupportFiles p w'.files := by
  rcases unpack_eq_ok_iff_writeAll.mp h with ⟨hpresent, _, _⟩ | ⟨_, _, u, hall, rfl⟩
  · obtain ⟨l, hl, hdir⟩ := isDirectory_eq_true_iff.mp hpresent
    rw [resolve_eq_endOf hl] at hdir
    exact absurd hdir habsent
  · intro file hfile
    have hnodup : (Support.payloads.map (·.1)).Nodup := by
      simp [Support.payloads, Support.files]
    exact read_of_writeAll (fun _ => plain_of_mem_payloads) hnodup hall _ (mem_payloads hfile) _ rfl

theorem isDirectory_of_hasSupportFiles {t : FileTree} (h : HasSupportFiles p t) :
    t.isDirectory (supportPath p) = .ok true := by
  obtain ⟨file, rest, hfiles⟩ : ∃ file rest, Support.files = file :: rest := ⟨_, _, rfl⟩
  have hfile : file ∈ Support.files := hfiles ▸ List.mem_cons_self
  obtain ⟨l, modified, hl, hentry⟩ := read_eq_ok_iff.mp (h file hfile)
  have hparent := parent_child_of_isPlain (p := supportPath p)
    (plain_of_mem_payloads (mem_payloads hfile))
  exact isDirectory_parent_of_isFile hparent ⟨l, _, modified, hl, hentry⟩

theorem unpack_of_hasSupportFiles (h : HasSupportFiles p w.files)
    (hrun : Support.unpack p.output p.config.supportDir Support.payloads w = .ok unpacked w') :
    w' = w := by
  rcases unpack_eq_ok_iff.mp hrun with ⟨_, _, hw'⟩ | ⟨habsent, _⟩
  · exact hw'
  · simp [isDirectory_of_hasSupportFiles h] at habsent

theorem HasSupportFiles.evolves {t t' : FileTree} {D W : Location → Prop}
    (h : HasSupportFiles p t) (ht : Evolves now D W t t')
    (hW : ∀ file ∈ Support.files, ¬ W (endOf t.current ((supportPath p).child file.1))) :
    HasSupportFiles p t' :=
  fun file hfile => read_of_evolves ht (hW file hfile) (h file hfile)

theorem HasSupportFiles.writeCompanions {source? : Option Path} {needsForeign : Bool}
    {a : Artifacts} {written : List Path} (h : HasSupportFiles p w.files)
    (hspares : ∀ q ∈ a.all, ∀ file ∈ Support.files,
      endOf w.files.current q ≠ endOf w.files.current ((supportPath p).child file.1))
    (hrun : Rebuild.writeCompanions source? needsForeign a p.config w = .ok written w') :
    HasSupportFiles p w'.files := by
  have hmoves := (within_writeCompanions source? needsForeign p.config
    fun q hq => admits_ends w.files.current hq).of_ok rfl hrun
  refine h.evolves hmoves.files ?_
  rintro file hfile ⟨q, hq, hend⟩
  exact hspares q (all_of_mem_foreignPaths hq) file hfile hend.symm

/-- Writing a module unpacks the support files, or leaves them as they are. -/
theorem hasSupportFiles_of_persist {m : CompiledModule} {environment : Value} {externs : Content}
    {a : Artifacts}
    (hspares : (Call.persist m environment externs).Spares p w.files.current)
    (hready : HasSupportFiles p w.files ∨
      w.files.get? (endOf w.files.current (supportPath p)) ≠ some .directory ∧
        (Call.persist m environment externs).KeepsOut p w.files.current)
    (hrun : p.persist m environment externs w = .ok a w') : HasSupportFiles p w'.files := by
  obtain ⟨location, u, unpacked, v, written, _, hprimary, hunpack, hcompanions⟩ :=
    persist_eq_ok_iff.mp hrun
  have ha := (isWritten_of_writePrimary hprimary).1
  have hu := ((within_writePrimary (p := p) (m := m) environment externs fun b hb q hq => by
    obtain rfl : a = b := Except.ok.inj (ha.symm.trans hb)
    exact admits_ends w.files.current hq).of_ok rfl hprimary).files
  have hv : HasSupportFiles p v.files := by
    rcases hready with hkept | ⟨habsent, hkeepsOut⟩
    · have hkept' : HasSupportFiles p u.files := by
        refine hkept.evolves hu ?_
        rintro file hfile ⟨q, hq, hend⟩
        exact hspares a ha q (all_of_mem_primary hq) file hfile hend.symm
      rwa [unpack_of_hasSupportFiles hkept' hunpack]
    · -- The primary outputs come before the unpacking: they must not make the directory.
      refine hasSupportFiles_of_unpack ?_ hunpack
      rw [hu.current]
      rcases hu.entry (endOf w.files.current (supportPath p)) with
        hsame | ⟨⟨q, hq, hway⟩, _, _⟩ | ⟨_, _, content, hfile⟩
      · rwa [hsame]
      · exact absurd hway (hkeepsOut a ha q hq)
      · simp [hfile]
  have hcurrent : v.files.current = w.files.current :=
    (evolves_of_unpack hunpack).current.trans hu.current
  exact hv.writeCompanions (hcurrent ▸ hspares a ha) hcompanions

theorem hasSupportFiles_of_run (hspares : c.Spares p w.files.current)
    (hready : HasSupportFiles p w.files ∨
      w.files.get? (endOf w.files.current (supportPath p)) ≠ some .directory ∧
        c.KeepsOut p w.files.current)
    (hrun : c.run p w = .ok () w') : HasSupportFiles p w'.files := by
  cases c with
  | prepare =>
      obtain ⟨unpacked, hunpack⟩ := run_prepare_eq_ok_iff.mp hrun
      rcases hready with hkept | ⟨habsent, _⟩
      · rwa [unpack_of_hasSupportFiles hkept hunpack]
      · exact hasSupportFiles_of_unpack habsent hunpack
  | persist m environment externs =>
      obtain ⟨a, hpersist⟩ := run_persist_eq_ok_iff.mp hrun
      exact hasSupportFiles_of_persist hspares hready hpersist

theorem within_run_top (current : Location) (c : Call) :
    Within current (fun _ => True) (fun _ => True) (c.run p) := by
  cases c with
  | prepare =>
      exact within_bind (within_unpack _ _ fun _ _ => admits_top current _)
        fun _ => within_pure ()
  | persist m environment externs =>
      exact within_bind (within_persist_top p m environment externs) fun _ => within_pure ()

theorem HasSupportFiles.runCalls (h : HasSupportFiles p w.files)
    (hspares : ∀ c ∈ calls, c.2.Spares p w.files.current)
    (hrun : runCalls p calls w = .ok () w') : HasSupportFiles p w'.files := by
  induction calls generalizing w with
  | nil =>
      cases hrun
      exact h
  | cons first calls ih =>
      obtain ⟨u, hu, hrest⟩ := runCalls_cons_eq_ok_iff.mp hrun
      have hcurrent := ((within_run_top _ first.2).of_ok rfl hu).files.current
      have hkept : HasSupportFiles p u.files :=
        hasSupportFiles_of_run (w := { w with now := first.1 })
          (hspares first List.mem_cons_self) (.inl h) hu
      refine ih hkept (fun c hc => ?_) hrest
      rw [hcurrent]
      exact hspares c (List.mem_cons_of_mem first hc)

/-- Once one call or more returned in a tree without a support directory, the support
files are there with their own bytes, if the first call did not make that directory on
the way to an output and no call writes an output in place of a support file. -/
theorem runCalls_hasSupportFiles
    (habsent : w.files.get? (endOf w.files.current (supportPath p)) = none)
    (hkeepsOut : c.KeepsOut p w.files.current)
    (hspares : ∀ x ∈ (now, c) :: calls, x.2.Spares p w.files.current)
    (hrun : runCalls p ((now, c) :: calls) w = .ok () w') : HasSupportFiles p w'.files := by
  obtain ⟨u, hu, hrest⟩ := runCalls_cons_eq_ok_iff.mp hrun
  have hcurrent := ((within_run_top _ c).of_ok rfl hu).files.current
  have hunpacked : HasSupportFiles p u.files :=
    hasSupportFiles_of_run (w := { w with now }) (hspares _ List.mem_cons_self)
      (.inr ⟨by simp [habsent], hkeepsOut⟩) hu
  refine hunpacked.runCalls (fun x hx => ?_) hrest
  rw [hcurrent]
  exact hspares x (List.mem_cons_of_mem _ hx)

end

section

variable {p : Project} {names : List ModuleName} {current : Location} {m : CompiledModule}

theorem spares_of_isLaidOut (h : IsLaidOut p names current) (hm : m.name ∈ names)
    (environment : Value) (externs : Content) :
    (Call.persist m environment externs).Spares p current := by
  intro a ha q hq file hfile heq
  obtain ⟨hstraight, _, f, _, hplace⟩ := h.place_of_artifacts hm ha hq
  rw [endOf_straight current hstraight, hplace, endOf_payload current (mem_payloads hfile),
    endOf_straight current h.place_of_support.1, h.place_of_support.2] at heq
  exact not_supportHome_suffix_home h hm ⟨[], (List.cons.inj heq).2.symm⟩

theorem keepsOut_of_isLaidOut (h : IsLaidOut p names current) (hm : m.name ∈ names)
    (environment : Value) (externs : Content) :
    (Call.persist m environment externs).KeepsOut p current := by
  intro a ha q hq hway
  obtain ⟨hstraight, hparent, _⟩ := h.place_of_artifacts hm ha (all_of_mem_primary hq)
  have hsuffix := isOnWay_straight hstraight hway
  rw [hparent, endOf_straight current h.place_of_support.1, h.place_of_support.2] at hsuffix
  exact not_supportHome_suffix_home h hm hsuffix

end

def emptyWorkspace : Workspace :=
  ⟨∅, ⟨0, 0⟩, []⟩

def writeEmpty (n : ModuleName) : Call :=
  .persist ⟨n, [], []⟩ .null (.bytes .empty)

theorem runCalls_hasSupportFiles_small :
    HasSupportFiles smallProject
      (after (runCalls smallProject [(⟨1, 0⟩, writeEmpty alpha), (⟨2, 0⟩, .prepare)])
        emptyWorkspace).files := by
  have hrun := returns_iff.mp (show returns (runCalls smallProject
    [(⟨1, 0⟩, writeEmpty alpha), (⟨2, 0⟩, .prepare)]) emptyWorkspace () = true by decide +kernel)
  have hlayout : IsLaidOut smallProject [beta, alpha] emptyWorkspace.files.current :=
    isLaidOut_small
  refine runCalls_hasSupportFiles (by decide +kernel)
    (keepsOut_of_isLaidOut hlayout (by simp) _ _) ?_ hrun
  intro x hx
  rcases List.mem_cons.mp hx with rfl | hx
  · exact spares_of_isLaidOut hlayout (by simp) _ _
  · obtain rfl := List.mem_singleton.mp hx
    trivial

def clashing : ModuleName := ⟨"PureScript.Foo", by decide, by decide⟩

def clashingProject : Project :=
  { smallProject with modules := ⟨.ofList [(clashing, .governed .never)]⟩ }

/-- Not every sequence of calls leaves the support files behind: a module may make their
directory first. -/
theorem not_forall_runCalls_hasSupportFiles :
    ¬ ∀ (p : Project) (now : MTime) (c : Call) (calls : List (MTime × Call)) (w w' : Workspace),
      p.config = .default → w.files.get? (endOf w.files.current (supportPath p)) = none →
        runCalls p ((now, c) :: calls) w = .ok () w' → HasSupportFiles p w'.files := by
  intro h
  have hrun := returns_iff.mp (show returns (runCalls clashingProject
    [(⟨1, 0⟩, writeEmpty clashing)]) emptyWorkspace () = true by decide +kernel)
  have hmissing : ((after (runCalls clashingProject [(⟨1, 0⟩, writeEmpty clashing)])
      emptyWorkspace).files.read
        ((supportPath clashingProject).child "purescript_memory.hh")).isOk = false := by
    decide +kernel
  have hread := h clashingProject ⟨1, 0⟩ (writeEmpty clashing) [] emptyWorkspace _ rfl
    (by decide +kernel) hrun ("purescript_memory.hh", Support.memoryHeader) (by simp [Support.files])
  rw [hread] at hmissing
  cases hmissing

end Rebuild.Proofs.SupportFiles
