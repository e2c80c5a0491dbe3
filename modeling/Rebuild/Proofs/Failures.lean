import Rebuild.Proofs.Runs

/-!
What a failed rebuild leaves behind. Nothing that was written is taken back, so a
module passes for up to date once its primary outputs are written, whatever fails
later. Texts with a surrogate, which end the writing of the outputs early, are left out.
-/

namespace Rebuild.Proofs.Failures

open Rebuild.FileTree
open Rebuild.Proofs.Growth
open Rebuild.Proofs.Steps
open Rebuild.Proofs.Staleness
open Rebuild.Proofs.Writes
open Rebuild.Proofs.Runs

variable {p : Project} {m : CompiledModule} {environment : Value} {externs : Content}
variable {w w' : Workspace}

theorem outputTimestamp_of_isWritten {t : FileTree} {n : ModuleName} {a : Artifacts}
    {now : MTime} (ha : p.artifacts n = .ok a) (h : ∀ q ∈ a.primary, IsWritten t now q) :
    p.outputTimestamp t n = .ok (some now.timestamp) := by
  obtain ⟨stamps, b, hstamps, hb⟩ := exists_earliest (by simp [Artifacts.primary])
    fun q hq => ⟨_, (h q hq).timestamp?⟩
  obtain ⟨_, q, hq, hqb⟩ := earliest_spec hstamps hb
  have hnow : b = now.timestamp := by
    rw [(h q hq).timestamp?, Except.ok.injEq, Option.some.injEq] at hqb
    exact hqb.symm
  exact outputTimestamp_eq_ok_iff.mpr ⟨a, stamps, ha, hstamps, hnow ▸ hb⟩

theorem needsRebuild_of_isWritten {t : FileTree} {n : ModuleName} {a : Artifacts}
    {now : MTime} (ha : p.artifacts n = .ok a) (h : ∀ q ∈ a.primary, IsWritten t now q) :
    p.needsRebuild t n = (p.inputAge t n).map (InputAge.outdates now.timestamp) := by
  unfold Project.needsRebuild Project.inputAge
  rw [outputTimestamp_of_isWritten ha h]
  cases p.modules.locate n with
  | error e => rfl
  | ok location =>
      simp only [bind, Except.bind]
      cases p.inputAgeAt t location <;> rfl

/-- A stale module whose primary files could not be written stays stale. -/
theorem needsRebuild_of_writePrimary_error {e : BuildError}
    (hencodable : ∀ a texts, Planned p m environment externs a texts →
      ∀ file ∈ primaryFiles a texts externs, file.2.IsEncodable)
    (hstale : p.needsRebuild w.files m.name = .ok true)
    (h : p.writePrimary m environment externs w = .error e w') :
    p.needsRebuild w'.files m.name ≠ .ok false := by
  intro hfresh
  rcases writePrimary_error h with rfl | ⟨a, texts, hplan, hafter, hnever⟩
  · simp [hstale] at hfresh
  · obtain ⟨location, b, hlocation, hb, hprimary, _⟩ := needsRebuild_eq_false_iff.mp hfresh
    have hba : b = a := by simpa [hplan.2.1] using hb.symm
    subst hba
    have hmoves := within_tryWriteAll (primaryFiles b texts externs)
      (fun f _ => admits_top w.files.current f.1) w rfl
    rw [hafter] at hmoves
    -- Had all three been there in the end, each could have been written at its turn.
    obtain ⟨u, hall, _⟩ := tryWriteAll_of_below (primaryFiles b texts externs)
      hmoves.files.below fun file hfile => by
        refine ⟨?_, Content.hasBytes_of_isEncodable
          (isExterns_of_mem_primaryFiles hplan.1 hfile) (hencodable b texts hplan file hfile)⟩
        exact isFile_iff_timestamp?.mpr (hprimary file.1 (primary_of_mem_primaryFiles hfile))
    exact hnever u hall

/-- A stale module that could not be written, though no surrogate is in its texts, passes for
up to date in just this case: its primary files were written, and its inputs do not call for
a rebuild at that time. -/
theorem needsRebuild_after_failure {e : BuildError}
    (hencodable : ∀ a texts, Planned p m environment externs a texts →
      ∀ file ∈ primaryFiles a texts externs, file.2.IsEncodable)
    (hstale : p.needsRebuild w.files m.name = .ok true)
    (hfail : p.persist m environment externs w = .error e w') :
    p.needsRebuild w'.files m.name = .ok false ↔
      (∃ a u, p.writePrimary m environment externs w = .ok a u) ∧
        ∃ age, p.inputAge w'.files m.name = .ok age ∧
          age.outdates w.now.timestamp = false := by
  rcases persist_error hfail with ⟨hunknown, _⟩ | hprimary | ⟨a, u, hprimary, hmoves⟩
  · obtain ⟨location, _, hlocation, _⟩ := needsRebuild_eq_ok_iff.mp hstale
    simp [hunknown] at hlocation
  · constructor
    · intro hfresh
      exact absurd hfresh (needsRebuild_of_writePrimary_error hencodable hstale hprimary)
    · rintro ⟨⟨a, u, hok⟩, _⟩
      simp [hprimary] at hok
  · obtain ⟨ha, hnow, hwritten⟩ := isWritten_of_writePrimary hprimary
    have hwritten' : ∀ q ∈ a.primary, IsWritten w'.files w.now q :=
      fun q hq => (hwritten q hq).evolves (hnow ▸ hmoves.files)
    rw [needsRebuild_of_isWritten ha hwritten']
    have hdone : ∃ a u, p.writePrimary m environment externs w = .ok a u := ⟨a, u, hprimary⟩
    cases hage : p.inputAge w'.files m.name <;> simp [hdone, Except.map]

def blockedWorkspace : Workspace :=
  ⟨blockedTree, ⟨1, 0⟩, []⟩

def emptyText : CodeText :=
  "// Generated by pcc version 0.9.2\n\n"

def blockedPersist : BuildM Artifacts :=
  smallProject.persist ⟨alpha, [], []⟩ .null (.bytes .empty)

theorem needsRebuild_blockedTree : smallProject.needsRebuild blockedTree alpha = .ok true :=
  answers_iff.mp (by decide)

theorem exists_blockedPersist_error :
    ∃ e, blockedPersist blockedWorkspace = .error e (after blockedPersist blockedWorkspace) :=
  fails_iff.mp (by decide +kernel)

theorem needsRebuild_after_blockedPersist :
    smallProject.needsRebuild (after blockedPersist blockedWorkspace).files alpha = .ok false :=
  answers_iff.mp (by decide +kernel)

theorem needsRebuild_after_failure_blocked :
    (∃ e, blockedPersist blockedWorkspace =
        .error e (after blockedPersist blockedWorkspace)) ∧
      ∃ age, smallProject.inputAge (after blockedPersist blockedWorkspace).files alpha = .ok age ∧
        age.outdates blockedWorkspace.now.timestamp = false := by
  obtain ⟨e, hfail⟩ := exists_blockedPersist_error
  have hpersist : smallProject.persist ⟨alpha, [], []⟩ .null (.bytes .empty)
      blockedWorkspace = .error e (after blockedPersist blockedWorkspace) := hfail
  have hencodable : ∀ a texts,
      Planned smallProject ⟨alpha, [], []⟩ .null (.bytes .empty) a texts →
      ∀ file ∈ primaryFiles a texts (.bytes .empty), file.2.IsEncodable := by
    intro a texts hplan
    have htexts : renderModule smallProject.render smallProject.config ⟨alpha, [], []⟩ .null =
        .ok (emptyText, emptyText) := rfl
    obtain rfl := Except.ok.inj (htexts.symm.trans hplan.2.2)
    simp [primaryFiles, Content.IsEncodable, emptyText]
  have hcase := needsRebuild_after_failure (w := blockedWorkspace) (m := ⟨alpha, [], []⟩)
    hencodable needsRebuild_blockedTree hpersist
  exact ⟨⟨e, hfail⟩, (hcase.mp needsRebuild_after_blockedPersist).2⟩

/-- A failed rebuild may pass for a finished one. -/
theorem not_forall_stale_after_failure :
    ¬ ∀ (p : Project) (m : CompiledModule) (environment : Value) (externs : Content)
        (w w' : Workspace) (e : BuildError), p.needsRebuild w.files m.name = .ok true →
      p.persist m environment externs w = .error e w' →
        p.needsRebuild w'.files m.name ≠ .ok false := by
  intro h
  obtain ⟨e, hfail⟩ := exists_blockedPersist_error
  exact h smallProject ⟨alpha, [], []⟩ .null (.bytes .empty) blockedWorkspace _ e
    needsRebuild_blockedTree hfail needsRebuild_after_blockedPersist

end Rebuild.Proofs.Failures
