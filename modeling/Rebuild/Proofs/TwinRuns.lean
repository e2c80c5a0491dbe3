import Rebuild.Proofs.Agreement
import Rebuild.Proofs.Writes

namespace Rebuild.Proofs.TwinRuns

open Rebuild.FileTree
open Rebuild.Proofs.PathNormal
open Rebuild.Proofs.Lookup
open Rebuild.Proofs.Growth
open Rebuild.Proofs.TreeCalls
open Rebuild.Proofs.Directories
open Rebuild.Proofs.Steps
open Rebuild.Proofs.Writes
open Rebuild.Proofs.Agreement

/-- Two workspaces write at the same time to trees that agree on `F`. Both have the
directory, and all that is looked up is seen from the same current one. -/
structure Twin (F : Location → Prop) (current : Location) (directory : Path)
    (w u : Workspace) : Prop where
  current : w.files.current = current
  now : u.now = w.now
  agree : Agree F w.files u.files
  left : w.files.isDirectory directory = .ok true
  right : u.files.isDirectory directory = .ok true

/-- A step ended in the same way in both workspaces. -/
inductive SameResult {α : Type} (R : Workspace → Workspace → Prop) :
    EStateM.Result BuildError Workspace α → EStateM.Result BuildError Workspace α → Prop
  | ok {a : α} {w u : Workspace} (h : R w u) : SameResult R (.ok a w) (.ok a u)
  | error {e : BuildError} {w u : Workspace} (h : R w u) : SameResult R (.error e w) (.error e u)

/-- From related workspaces the step ends in the same way, in related workspaces. -/
def Lockstep {α : Type} (R : Workspace → Workspace → Prop) (x : BuildM α) : Prop :=
  ∀ w u, R w u → SameResult R (x w) (x u)

section

variable {R : Workspace → Workspace → Prop} {α β : Type}

theorem SameResult.cases {x y : EStateM.Result BuildError Workspace α}
    (h : SameResult R x y) :
    (∃ a w u, x = .ok a w ∧ y = .ok a u ∧ R w u) ∨
      ∃ e w u, x = .error e w ∧ y = .error e u ∧ R w u := by
  rcases h with h | h
  · exact .inl ⟨_, _, _, rfl, rfl, h⟩
  · exact .inr ⟨_, _, _, rfl, rfl, h⟩

theorem lockstep_pure (a : α) : Lockstep R (pure a : BuildM α) :=
  fun _ _ h => .ok h

theorem lockstep_throw (e : BuildError) : Lockstep R (throw e : BuildM α) :=
  fun _ _ h => .error h

theorem lockstep_bind {x : BuildM α} {f : α → BuildM β} (hx : Lockstep R x)
    (hf : ∀ a, Lockstep R (f a)) : Lockstep R (x >>= f) := by
  intro w u h
  rcases (hx w u h).cases with ⟨a, w', u', hw, hu, h'⟩ | ⟨e, w', u', hw, hu, h'⟩
  · rw [bind_of_ok hw, bind_of_ok hu]
    exact hf a w' u' h'
  · rw [bind_of_error hw, bind_of_error hu]
    exact .error h'

theorem lockstep_tryCatch {x : BuildM α} {handle : BuildError → BuildM α} (hx : Lockstep R x)
    (hhandle : ∀ e, Lockstep R (handle e)) : Lockstep R (tryCatch x handle) := by
  intro w u h
  rw [tryCatch_apply, tryCatch_apply]
  rcases (hx w u h).cases with ⟨a, w', u', hw, hu, h'⟩ | ⟨e, w', u', hw, hu, h'⟩
  · rw [hw, hu]
    exact .ok h'
  · rw [hw, hu]
    exact hhandle e w' u' h'

theorem lockstep_ask {ask : Workspace → Except BuildError α} {f : α → BuildM β}
    (hask : ∀ w u, R w u → ask u = ask w) (hf : ∀ a, Lockstep R (f a)) :
    Lockstep R (get >>= fun w => (monadLift (ask w) : BuildM α) >>= f) := by
  intro w u h
  rw [bind_of_ok (get_apply w), bind_of_ok (get_apply u), hask w u h]
  cases ask w with
  | error e => exact .error h
  | ok a => exact hf a w u h

end

/-- The path names a file of the directory. -/
structure Targets (F : Location → Prop) (current : Location) (directory q : Path) : Prop where
  leadsIn : LeadsIn F current q
  parent : q.normalize.parent = directory.normalize

section

variable {F : Location → Prop} {current : Location} {directory q : Path} {w u : Workspace}

theorem lockstep_makeParents (hq : Targets F current directory q) :
    Lockstep (Twin F current directory) (makeParents q) := by
  intro w u h
  rw [makeParents_present hq.parent h.left, makeParents_present hq.parent h.right]
  exact .ok h

theorem Twin.change (h : Twin F current directory w u) {content content' : ByteArray}
    {files files' : FileTree} (hfiles : w.files.write q content w.now = .ok files)
    (hfiles' : u.files.write q content' w.now = .ok files') (hagree : Agree F files files') :
    Twin F current directory { w with files } ⟨files', w.now, u.printed⟩ := by
  have hgrow : Evolves w.now (fun _ => True) (fun _ => True) w.files files :=
    evolves_of_placeAt hfiles fun _ _ => trivial
  have hgrow' : Evolves w.now (fun _ => True) (fun _ => True) u.files files' :=
    evolves_of_placeAt hfiles' fun _ _ => trivial
  exact ⟨hgrow.current.trans h.current, rfl, hagree, isDirectory_below hgrow.below h.left,
    isDirectory_below hgrow'.below h.right⟩

theorem lockstep_putBytes (content : ByteArray) (hq : Targets F current directory q) :
    Lockstep (Twin F current directory) (putBytes q content) := by
  intro w u h
  rw [putBytes_apply, putBytes_apply, h.now]
  rcases placeAt_agree h.agree (h.current ▸ hq.leadsIn) (.file content w.now) with
    ⟨fault, hw, hu⟩ | ⟨files, files', hw, hu, hagree⟩
  · rw [FileTree.write, FileTree.write, hw, hu]
    exact .error h
  · rw [FileTree.write, FileTree.write, hw, hu]
    exact .ok (h.change hw hu hagree)

theorem lockstep_putCopy {source : Path} (hsource : LeadsIn F current source)
    (hq : Targets F current directory q) :
    Lockstep (Twin F current directory) (putCopy source q) := by
  intro w u h
  rw [putCopy_apply, putCopy_apply, h.now]
  rcases copy_agree h.agree (h.current ▸ hsource) (h.current ▸ hq.leadsIn) w.now with
    ⟨fault, hw, hu⟩ | ⟨files, files', hw, hu, hagree⟩
  · rw [hw, hu]
    exact .error h
  · rw [hw, hu]
    obtain ⟨_, _, hwrite⟩ := copy_eq_ok hw
    obtain ⟨_, _, hwrite'⟩ := copy_eq_ok hu
    exact .ok (h.change hwrite hwrite' hagree)

theorem lockstep_writeBytes (content : ByteArray) (hq : Targets F current directory q) :
    Lockstep (Twin F current directory) (writeBytes q content) :=
  lockstep_bind (lockstep_makeParents hq) fun _ =>
    lockstep_bind (lockstep_putBytes content hq) fun _ => lockstep_pure _

theorem lockstep_copyFile {source : Path} (hsource : LeadsIn F current source)
    (hq : Targets F current directory q) :
    Lockstep (Twin F current directory) (copyFile source q) := by
  rw [copyFile_eq]
  exact lockstep_bind (lockstep_makeParents hq) fun _ => lockstep_putCopy hsource hq

theorem isFile_of_twin {source : Path} (hsource : LeadsIn F current source)
    (h : Twin F current directory w u) : u.files.isFile source = w.files.isFile source :=
  isFile_agree h.agree (h.current ▸ hsource)

variable {found : OrderedMap Extension Path} {a : Artifacts}

theorem lockstep_presentCompanion {α : Type} {f : Option Path → BuildM α} (ext : Extension)
    (hfound : ∀ i ∈ found.values, LeadsIn F current i)
    (hnone : Lockstep (Twin F current directory) (f none))
    (hsome : ∀ source, LeadsIn F current source →
      Lockstep (Twin F current directory) (f (some source))) :
    Lockstep (Twin F current directory) (presentCompanion found ext >>= f) := by
  unfold presentCompanion
  cases hext : found.get? ext with
  | none => exact hnone
  | some source =>
      have hsource := hfound source (OrderedMap.mem_values_of_get? hext)
      rw [bind_assoc]
      simp only [bind_assoc]
      apply lockstep_ask fun w u h => isFile_of_twin hsource h
      intro present
      cases present with
      | true => exact hsome source hsource
      | false => exact hnone

theorem lockstep_writeForeignHeader (needsForeign : Bool) (config : Config)
    (hfound : ∀ i ∈ found.values, LeadsIn F current i)
    (ha : Targets F current directory a.foreignHeader) :
    Lockstep (Twin F current directory) (writeForeignHeader found needsForeign a config) := by
  apply lockstep_presentCompanion config.headerExt hfound
  · cases needsForeign with
    | true => exact lockstep_bind (lockstep_writeBytes _ ha) fun _ => lockstep_pure _
    | false => exact lockstep_pure _
  · intro source hsource
    exact lockstep_bind (lockstep_copyFile hsource ha) fun _ => lockstep_pure _

theorem lockstep_writeForeignImplementation (config : Config)
    (hfound : ∀ i ∈ found.values, LeadsIn F current i)
    (ha : Targets F current directory a.foreignImplementation) :
    Lockstep (Twin F current directory) (writeForeignImplementation found a config) := by
  apply lockstep_presentCompanion config.implExt hfound
  · exact lockstep_pure _
  · intro source hsource
    exact lockstep_bind (lockstep_copyFile hsource ha) fun _ => lockstep_pure _

theorem lockstep_copyIfPossible {source : Path} (hsource : LeadsIn F current source)
    (hq : Targets F current directory q) :
    Lockstep (Twin F current directory) (copyIfPossible source q) := by
  apply lockstep_tryCatch
  · apply lockstep_ask fun w u h => isFile_of_twin hsource h
    intro present
    cases present with
    | true => exact lockstep_bind (lockstep_copyFile hsource hq) fun _ => lockstep_pure _
    | false => exact lockstep_pure _
  · intro e
    split
    · exact lockstep_pure _
    · exact lockstep_throw _

theorem lockstep_copyOthers {targets : List (Extension × Path)}
    (hfound : ∀ i ∈ found.values, LeadsIn F current i)
    (htargets : ∀ target ∈ targets, Targets F current directory target.2) :
    Lockstep (Twin F current directory) (copyOthers found targets) := by
  induction targets with
  | nil => exact lockstep_pure _
  | cons target targets ih =>
      have hrest := ih fun t ht => htargets t (by simp [ht])
      unfold copyOthers
      cases hext : found.get? target.1 with
      | none => exact lockstep_bind (lockstep_pure _) fun _ =>
          lockstep_bind hrest fun _ => lockstep_pure _
      | some source =>
          have hsource := hfound source (OrderedMap.mem_values_of_get? hext)
          exact lockstep_bind (lockstep_copyIfPossible hsource (htargets target (by simp)))
            fun _ => lockstep_bind hrest fun _ => lockstep_pure _

theorem lockstep_writeFound (needsForeign : Bool) (config : Config)
    (hfound : ∀ i ∈ found.values, LeadsIn F current i)
    (ha : ∀ q ∈ a.all, Targets F current directory q) :
    Lockstep (Twin F current directory) (writeFound found needsForeign a config) := by
  apply lockstep_bind (lockstep_writeForeignHeader needsForeign config hfound
    (ha _ (by simp [Artifacts.all])))
  intro header
  apply lockstep_bind (lockstep_writeForeignImplementation config hfound
    (ha _ (by simp [Artifacts.all])))
  intro implementation
  apply lockstep_bind
  · apply lockstep_copyOthers hfound
    intro target htarget
    apply ha
    simp only [Artifacts.all, OrderedMap.values, List.mem_append, List.mem_cons, List.mem_map]
    exact .inr (.inr (.inr ⟨target, htarget, rfl⟩))
  · exact fun _ => lockstep_pure _

/-- The companions of a module are written in the same way in both workspaces, where the
places of the companions are among those on which the trees agree. -/
theorem lockstep_writeCompanions (source? : Option Path) (needsForeign : Bool)
    (config : Config)
    (hfound : ∀ source found, source? = some source → companions source config = .ok found →
      ∀ i ∈ found.values, LeadsIn F current i)
    (ha : ∀ q ∈ a.all, Targets F current directory q) :
    Lockstep (Twin F current directory) (writeCompanions source? needsForeign a config) := by
  cases source? with
  | none =>
      rw [writeCompanions_none_eq]
      exact lockstep_writeFound needsForeign config (fun _ hi => nomatch hi) ha
  | some source =>
      rw [writeCompanions_some_eq]
      cases hcompanions : companions source config with
      | error e => exact lockstep_throw _
      | ok found =>
          exact lockstep_writeFound needsForeign config (hfound source found rfl hcompanions) ha

end

end Rebuild.Proofs.TwinRuns
