import Rebuild.Proofs.FileNames
import Rebuild.Proofs.Refusals
import Rebuild.Proofs.Runs

/-!
Requests that are rejected. All that is not an error of the file system is found before
the first write, but for a text with a surrogate in it, which is found at its own turn
among the primary files. Behind these only the file system can end the writing of a module.
-/

namespace Rebuild.Proofs.Rejections

open Rebuild.FileTree
open Rebuild.Proofs.PathNormal
open Rebuild.Proofs.Lookup
open Rebuild.Proofs.Steps
open Rebuild.Proofs.Writes
open Rebuild.Proofs.Refusals
open Rebuild.Proofs.Layout
open Rebuild.Proofs.FileNames
open Rebuild.Proofs.Runs

/-- Whatever workspace the step starts from, an error with which it ends is one of files. -/
def FailsOnFiles {α : Type} (x : BuildM α) : Prop :=
  ∀ w e w', x w = .error e w' → e.isFileError = true

section

variable {α β : Type}

theorem failsOnFiles_pure (a : α) : FailsOnFiles (pure a : BuildM α) := by
  rintro w e w' ⟨⟩

theorem failsOnFiles_get : FailsOnFiles (get : BuildM Workspace) := by
  rintro w e w' ⟨⟩

theorem failsOnFiles_printLine (line : String) : FailsOnFiles (printLine line) := by
  rintro w e w' ⟨⟩

theorem failsOnFiles_lift {x : Except BuildError α}
    (h : ∀ e, x = .error e → e.isFileError = true) : FailsOnFiles (monadLift x : BuildM α) := by
  intro w e w' hx
  cases x with
  | ok a => cases hx
  | error e' =>
      cases hx
      exact h _ rfl

theorem failsOnFiles_letPass {x : BuildM α} (a : α) (hx : FailsOnFiles x) :
    FailsOnFiles (tryCatch x fun e => if e.isFileError then return a else throw e) := by
  intro w e w' h
  rw [tryCatch_apply] at h
  cases hfail : x w with
  | ok b u =>
      rw [hfail] at h
      cases h
  | error e' u =>
      rw [hfail] at h
      simp [hx w e' u hfail] at h

theorem failsOnFiles_bind_result {x : BuildM α} {f : α → BuildM β} (hx : FailsOnFiles x)
    (hf : ∀ a, (∃ w w', x w = .ok a w') → FailsOnFiles (f a)) : FailsOnFiles (x >>= f) := by
  intro w e w' h
  rcases bind_eq_error_iff.mp h with h | ⟨a, u, ha, h⟩
  · exact hx w e w' h
  · exact hf a ⟨w, u, ha⟩ u e w' h

theorem failsOnFiles_bind {x : BuildM α} {f : α → BuildM β} (hx : FailsOnFiles x)
    (hf : ∀ a, FailsOnFiles (f a)) : FailsOnFiles (x >>= f) :=
  failsOnFiles_bind_result hx fun a _ => hf a

end

section

variable {q source target : Path} {v : Content}

theorem failsOnFiles_writeBytes (hq : q.hasNul = false) (content : ByteArray) :
    FailsOnFiles (writeBytes q content) :=
  fun _ _ _ h => (isRefusal_of_writeBytes hq h).isFileError

theorem failsOnFiles_writeFile (hq : q.hasNul = false) (hv : v.HasBytes) :
    FailsOnFiles (writeFile q v) :=
  fun _ _ _ h => (isRefusal_of_writeFile hq hv h).isFileError

theorem read_ne_embeddedNul {t : FileTree} (h : q.hasNul = false) :
    t.read q ≠ .error .embeddedNul := by
  unfold FileTree.read status
  cases hq : t.resolve q with
  | error fault =>
      rintro ⟨⟩
      exact resolve_ne_embeddedNul h hq
  | ok l =>
      simp only [bind, Except.bind]
      cases t.get? l with
      | none => simp
      | some e => cases e <;> simp

theorem copy_ne_embeddedNul {t : FileTree} {now : MTime} (hsource : source.hasNul = false)
    (htarget : target.hasNul = false) : t.copy source target now ≠ .error .embeddedNul := by
  unfold FileTree.copy
  simp only [hsource, htarget, Bool.false_eq_true, or_self, if_false]
  split
  · simp
  · cases hread : t.read source with
    | ok content =>
        intro hwrite
        rcases placeAt_error_iff.mp hwrite with htarget' | ⟨hfault, _⟩
        · exact resolve_ne_embeddedNul htarget htarget'
        · cases hfault
    | error fault =>
        rintro ⟨⟩
        exact read_ne_embeddedNul hsource hread

theorem failsOnFiles_copyFile (hsource : source.hasNul = false)
    (htarget : target.hasNul = false) : FailsOnFiles (copyFile source target) := by
  rw [copyFile_eq]
  apply failsOnFiles_bind
  · exact fun _ _ _ h => (isRefusal_of_makeParents htarget h).isFileError
  · intro _ w e w' h
    rw [putCopy_apply] at h
    cases hcopy : w.files.copy source target w.now with
    | ok files => simp [hcopy] at h
    | error fault =>
        rw [hcopy] at h
        cases h
        apply (isRefusal_ofWrite (q := target) _).isFileError
        rintro rfl
        exact copy_ne_embeddedNul hsource htarget hcopy

theorem hasNul_of_isFile {t : FileTree} (h : t.isFile q = .ok true) : q.hasNul = false := by
  unfold FileTree.isFile at h
  cases hprobe : t.probe q with
  | error fault => simp [hprobe] at h
  | ok e? =>
      cases e? with
      | none => simp [hprobe] at h
      | some e =>
          obtain ⟨l, hl, _⟩ := probe_eq_some_iff.mp hprobe
          exact (hasNul_normalize q).symm.trans (resolve_eq_ok_iff.mp hl).1.1

theorem failsOnFiles_isFile (t : FileTree) (q : Path) :
    FailsOnFiles (monadLift (t.isFile q) : BuildM Bool) := by
  apply failsOnFiles_lift
  intro e h
  unfold FileTree.isFile at h
  split at h <;> cases h
  rfl

theorem failsOnFiles_isDirectory (t : FileTree) (q : Path) :
    FailsOnFiles (monadLift (t.isDirectory q) : BuildM Bool) := by
  apply failsOnFiles_lift
  intro e h
  unfold FileTree.isDirectory at h
  split at h <;> cases h
  rfl

end

section

variable {target : Path} {found : OrderedMap Extension Path} {ext : Extension}
variable {a : Artifacts} {config : Config}

theorem failsOnFiles_writeAll (files : List (String × Content))
    (h : ∀ file ∈ files, (target.child file.1).hasNul = false ∧ file.2.HasBytes) :
    FailsOnFiles (Support.writeAll target files) := by
  induction files with
  | nil => exact failsOnFiles_pure ()
  | cons file files ih =>
      obtain ⟨hnul, hcontent⟩ := h file (by simp)
      apply failsOnFiles_bind (failsOnFiles_writeFile hnul hcontent)
      exact fun _ => ih fun f hf => h f (List.mem_cons_of_mem file hf)

theorem hasNul_child {q : Path} {name : String} (hq : q.hasNul = false) (hname : IsPlain name)
    (hnul : '\x00' ∉ name.toList) : (q.child name).hasNul = false := by
  rw [child_of_isPlain hname, hasNul_eq_false_iff]
  intro part hpart
  rcases List.mem_append.mp hpart with hpart | hpart
  · exact hasNul_eq_false_iff.mp hq part hpart
  · rw [List.mem_singleton] at hpart
    exact hpart ▸ hnul

theorem payload_spec {file : String × Content} (h : file ∈ Support.payloads) :
    '\x00' ∉ file.1.toList ∧ file.2.HasBytes := by
  simp only [Support.payloads, Support.files, List.map_cons, List.map_nil, List.mem_cons,
    List.not_mem_nil, or_false] at h
  rcases h with rfl | rfl | rfl <;> exact ⟨by decide, _, rfl⟩

theorem failsOnFiles_unpack {output : Path} {directory : String}
    (h : (output.normalize.child directory).hasNul = false) :
    FailsOnFiles (Support.unpack output directory Support.payloads) := by
  unfold Support.unpack
  apply failsOnFiles_bind failsOnFiles_get
  intro w
  apply failsOnFiles_bind (failsOnFiles_isDirectory w.files _)
  intro present
  split
  · exact failsOnFiles_pure false
  · apply failsOnFiles_bind
    · apply failsOnFiles_writeAll
      intro file hfile
      obtain ⟨hnul, hcontent⟩ := payload_spec hfile
      exact ⟨hasNul_child h (plain_of_mem_payloads hfile) hnul, hcontent⟩
    · intro _
      exact failsOnFiles_bind (failsOnFiles_printLine _) fun _ => failsOnFiles_pure true

theorem failsOnFiles_presentCompanion : FailsOnFiles (presentCompanion found ext) := by
  unfold presentCompanion
  split
  · exact failsOnFiles_pure none
  · apply failsOnFiles_bind failsOnFiles_get
    intro w
    apply failsOnFiles_bind (failsOnFiles_isFile w.files _)
    intro present
    split <;> exact failsOnFiles_pure _

theorem hasNul_of_presentCompanion {source : Path} {w w' : Workspace}
    (h : presentCompanion found ext w = .ok (some source) w') : source.hasNul = false := by
  unfold presentCompanion at h
  cases hget : found.get? ext with
  | none =>
      rw [hget] at h
      cases h
  | some q =>
      rw [hget] at h
      simp only at h
      rw [bind_of_ok (get_apply w)] at h
      obtain ⟨present, u, hpresent, h⟩ := bind_eq_ok_iff.mp h
      obtain ⟨hfile, _⟩ := lift_eq_ok_iff.mp hpresent
      cases present with
      | false => cases h
      | true =>
          cases h
          exact hasNul_of_isFile hfile

theorem failsOnFiles_writeForeignHeader (needsForeign : Bool)
    (htarget : a.foreignHeader.hasNul = false) :
    FailsOnFiles (writeForeignHeader found needsForeign a config) := by
  unfold writeForeignHeader
  apply failsOnFiles_bind_result failsOnFiles_presentCompanion
  rintro source? ⟨u, v, hsource⟩
  split
  · apply failsOnFiles_bind (failsOnFiles_copyFile (hasNul_of_presentCompanion hsource) htarget)
    exact fun _ => failsOnFiles_pure _
  · split
    · exact failsOnFiles_bind (failsOnFiles_writeBytes htarget _) fun _ => failsOnFiles_pure _
    · exact failsOnFiles_pure _

theorem failsOnFiles_writeForeignImplementation
    (htarget : a.foreignImplementation.hasNul = false) :
    FailsOnFiles (writeForeignImplementation found a config) := by
  unfold writeForeignImplementation
  apply failsOnFiles_bind_result failsOnFiles_presentCompanion
  rintro source? ⟨u, v, hsource⟩
  split
  · apply failsOnFiles_bind (failsOnFiles_copyFile (hasNul_of_presentCompanion hsource) htarget)
    exact fun _ => failsOnFiles_pure _
  · exact failsOnFiles_pure _

theorem failsOnFiles_copyIfPossible (source : Path) (htarget : target.hasNul = false) :
    FailsOnFiles (copyIfPossible source target) := by
  apply failsOnFiles_letPass
  apply failsOnFiles_bind failsOnFiles_get
  intro w
  apply failsOnFiles_bind_result (failsOnFiles_isFile w.files source)
  rintro present ⟨u, v, hpresent⟩
  cases present with
  | false => exact failsOnFiles_pure _
  | true =>
      have hsource := hasNul_of_isFile (lift_eq_ok_iff.mp hpresent).1
      exact failsOnFiles_bind (failsOnFiles_copyFile hsource htarget) fun _ => failsOnFiles_pure _

theorem failsOnFiles_copyOthers {targets : List (Extension × Path)}
    (h : ∀ t ∈ targets, t.2.hasNul = false) : FailsOnFiles (copyOthers found targets) := by
  induction targets with
  | nil => exact failsOnFiles_pure _
  | cons t targets ih =>
      have hrest := ih fun u hu => h u (List.mem_cons_of_mem t hu)
      unfold copyOthers
      split
      · apply failsOnFiles_bind (failsOnFiles_pure _)
        exact fun _ => failsOnFiles_bind hrest fun _ => failsOnFiles_pure _
      · apply failsOnFiles_bind (failsOnFiles_copyIfPossible _ (h t (by simp)))
        exact fun _ => failsOnFiles_bind hrest fun _ => failsOnFiles_pure _

theorem failsOnFiles_writeFound (needsForeign : Bool)
    (h : ∀ q ∈ foreignPaths a, q.hasNul = false) :
    FailsOnFiles (writeFound found needsForeign a config) := by
  apply failsOnFiles_bind
  · exact failsOnFiles_writeForeignHeader needsForeign (h _ (by simp [foreignPaths]))
  intro header
  apply failsOnFiles_bind
  · exact failsOnFiles_writeForeignImplementation (h _ (by simp [foreignPaths]))
  intro implementation
  apply failsOnFiles_bind
  · apply failsOnFiles_copyOthers
    intro t ht
    apply h
    simp only [foreignPaths, OrderedMap.values, List.mem_cons, List.mem_map]
    exact .inr (.inr ⟨t, ht, rfl⟩)
  · exact fun _ => failsOnFiles_pure _

end

section

variable {p : Project} {m : CompiledModule} {environment : Value} {externs : Content}
variable {w w' : Workspace} {e : BuildError}

theorem failsOnFiles_writeCompanions {a : Artifacts} {source? : Option Path}
    (needsForeign : Bool) (ha : p.artifacts m.name = .ok a)
    (hsource : ∀ source, source? = some source → source.normalize.parts ≠ [])
    (h : ∀ q ∈ foreignPaths a, q.hasNul = false) :
    FailsOnFiles (writeCompanions source? needsForeign a p.config) := by
  cases source? with
  | none => exact failsOnFiles_writeFound needsForeign h
  | some source =>
      obtain ⟨found, hfound⟩ := exists_companions ha (hsource source rfl)
      rw [writeCompanions_some_eq, hfound]
      exact failsOnFiles_bind (failsOnFiles_pure found) fun _ => failsOnFiles_writeFound _ h

/-- Whatever workspace the step starts from, it prints nothing. -/
def Silent {α : Type} (x : BuildM α) : Prop :=
  ∀ w, (after x w).printed = w.printed

theorem silent_bind {α β : Type} {x : BuildM α} {f : α → BuildM β} (hx : Silent x)
    (hf : ∀ a, Silent (f a)) : Silent (x >>= f) := by
  intro w
  have hfirst := hx w
  cases h : x w with
  | error e u =>
      rw [after_of_error h] at hfirst
      rw [after_bind_of_error h, hfirst]
  | ok a u =>
      rw [after_of_ok h] at hfirst
      rw [after_bind_of_ok h, hf a u, hfirst]

theorem silent_writeFile (q : Path) (v : Content) : Silent (writeFile q v) := by
  have hparents : Silent (makeParents q) := by
    intro w
    unfold after
    rw [makeParents_apply]
    rcases w.files.makeDirs q.normalize.parent with ⟨files, _ | _⟩ <;> rfl
  have hput : ∀ content, Silent (putBytes q content) := by
    intro content w
    unfold after
    rw [putBytes_apply]
    cases w.files.write q content w.now <;> rfl
  unfold writeFile
  cases v.toBytes with
  | error fault => exact fun _ => rfl
  | ok content =>
      exact silent_bind hparents fun _ => silent_bind (hput content) fun _ _ => rfl

theorem silent_tryWriteAll {files : List (Path × Content)}
    (h : ∀ file ∈ files, IsWritable file) : Silent (tryWriteAll files) := by
  induction files with
  | nil => exact fun _ => rfl
  | cons file files ih =>
      intro w
      rw [after_tryWriteAll_cons (h file (by simp)),
        ih (fun f hf => h f (List.mem_cons_of_mem file hf)), silent_writeFile]

/-- Once the primary files are tried, only files can stop the writing of them, and a text with
a surrogate in it. -/
theorem writePrimary_rejected {a : Artifacts} {texts : CodeText × CodeText}
    (hplan : Planned p m environment externs a texts) (hnul : ∀ q ∈ a.all, q.hasNul = false)
    (h : p.writePrimary m environment externs w = .error e w') (he : e.isFileError = false) :
    ∃ before fault, StopsAfter before (primaryFiles a texts externs) fault ∧
      e = .unencodable fault ∧ w' = after (tryWriteAll before) w ∧ w'.printed = w.printed := by
  have hnul' : ∀ file ∈ primaryFiles a texts externs, file.1.hasNul = false := fun file hfile =>
    hnul _ (all_of_mem_primary (primary_of_mem_primaryFiles hfile))
  have hexterns : ∀ file ∈ primaryFiles a texts externs, file.2.isExterns = true :=
    fun file hfile => isExterns_of_mem_primaryFiles hplan.1 hfile
  rw [writePrimary_apply hplan] at h
  rcases isEncodable_or_stopsAfter hexterns with hencodable | ⟨before, fault, hstop⟩
  · have hwritable : ∀ file ∈ primaryFiles a texts externs, IsWritable file := fun file hfile =>
      ⟨hnul' file hfile,
        Content.hasBytes_of_isEncodable (hexterns file hfile) (hencodable file hfile)⟩
    obtain ⟨failures, u, hall⟩ := exists_tryWriteAll hwritable w
    rw [hall] at h
    cases failures <;> cases h
    cases he
  · have hbefore := hstop.isWritable hnul' hexterns
    rw [tryWriteAll_of_stopsAfter hbefore hstop] at h
    cases h
    exact ⟨before, fault, hstop, rfl, rfl, silent_tryWriteAll hbefore w⟩

theorem failsOnFiles_afterPrimary {a : Artifacts} {source? : Option Path}
    (ha : p.artifacts m.name = .ok a) (hnul : ∀ q ∈ a.all, q.hasNul = false)
    (hsupport : (p.output.normalize.child p.config.supportDir).hasNul = false)
    (hsource : ∀ source, source? = some source → source.normalize.parts ≠ []) :
    FailsOnFiles (Support.unpack p.output p.config.supportDir Support.payloads >>= fun _ =>
      writeCompanions source? m.needsForeign a p.config >>= fun _ => pure a) := by
  refine failsOnFiles_bind (failsOnFiles_unpack hsupport) fun _ =>
    failsOnFiles_bind ?_ fun _ => failsOnFiles_pure a
  exact failsOnFiles_writeCompanions _ ha hsource fun q hq => hnul q (all_of_mem_foreignPaths hq)

/-- All but an error of files comes up at the lookup of the module or in the writing of its
primary files. -/
theorem rejected_of_persist
    (hnul : ∀ a, p.artifacts m.name = .ok a → ∀ q ∈ a.all, q.hasNul = false)
    (hsupport : (p.output.normalize.child p.config.supportDir).hasNul = false)
    (hsource : ∀ source, p.modules.locate m.name = .ok (.file source) →
      source.normalize.parts ≠ [])
    (h : p.persist m environment externs w = .error e w') (he : e.isFileError = false) :
    p.modules.locate m.name = .error e ∧ w' = w ∨
      p.writePrimary m environment externs w = .error e w' := by
  unfold Project.persist Project.writeModule at h
  cases hlocation : p.modules.locate m.name with
  | error e' =>
      rw [hlocation, bind_of_error (lift_error_apply e' w)] at h
      cases h
      exact .inl ⟨rfl, rfl⟩
  | ok location =>
      rw [hlocation, bind_of_ok (lift_ok_apply location w), bind_eq_error_iff] at h
      rcases h with hprimary | ⟨a, u, hprimary, hrest⟩
      · exact .inr hprimary
      · obtain ⟨_, hplan, _⟩ := writePrimary_eq_ok_iff.mp hprimary
        have ha : p.artifacts m.name = .ok a := hplan.2.1
        have hfile : ∀ source, location.file? = some source → source.normalize.parts ≠ [] := by
          intro source hfile
          cases location with
          | file path =>
              cases hfile
              exact hsource source hlocation
          | governed policy => cases hfile
        have hfails := failsOnFiles_afterPrimary ha (hnul a ha) hsupport hfile u e w' hrest
        rw [hfails] at he
        cases he

/-- A request that ends in anything but an error of files has printed nothing, and it has
changed no file and made no directory either if each of its texts can be written in UTF-8.
If it was ready to be written it ends at the first text that cannot, and the files ahead of
that were tried. -/
theorem persist_rejected
    (hnul : ∀ a, p.artifacts m.name = .ok a → ∀ q ∈ a.all, q.hasNul = false)
    (hsupport : (p.output.normalize.child p.config.supportDir).hasNul = false)
    (hsource : ∀ source, p.modules.locate m.name = .ok (.file source) →
      source.normalize.parts ≠ [])
    (h : p.persist m environment externs w = .error e w') (he : e.isFileError = false) :
    w'.printed = w.printed ∧
    ((∀ a texts, Planned p m environment externs a texts →
      ∀ file ∈ primaryFiles a texts externs, file.2.IsEncodable) → w' = w) ∧
    ∀ location, p.modules.locate m.name = .ok location →
      ∀ a texts, Planned p m environment externs a texts →
      ∃ before fault, StopsAfter before (primaryFiles a texts externs) fault ∧
        e = .unencodable fault ∧ w' = after (tryWriteAll before) w := by
  rcases rejected_of_persist hnul hsupport hsource h he with ⟨hunknown, rfl⟩ | hprimary
  · refine ⟨rfl, fun _ => rfl, fun location hlocation => ?_⟩
    simp [hunknown] at hlocation
  · by_cases hplan : ∃ a texts, Planned p m environment externs a texts
    · obtain ⟨a, texts, hplan⟩ := hplan
      obtain ⟨before, fault, hstop, hfault, hw', hprinted⟩ :=
        writePrimary_rejected hplan (hnul a hplan.2.1) hprimary he
      refine ⟨hprinted, fun hencodable => ?_, fun _ _ a' texts' hplan' => ?_⟩
      · obtain ⟨file, hfile, hnot⟩ := hstop.exists_not_isEncodable
        exact absurd (hencodable a texts hplan file hfile) hnot
      · obtain rfl := Except.ok.inj (hplan.2.1.symm.trans hplan'.2.1)
        obtain rfl := Except.ok.inj (hplan.2.2.symm.trans hplan'.2.2)
        exact ⟨before, fault, hstop, hfault, hw'⟩
    · have hunplanned : ∀ a texts, ¬ Planned p m environment externs a texts :=
        fun a texts ha => hplan ⟨a, texts, ha⟩
      obtain ⟨e', he'⟩ := writePrimary_unplanned hunplanned w
      rw [he'] at hprimary
      cases hprimary
      exact ⟨rfl, fun _ => rfl, fun _ _ a texts ha => absurd ha (hunplanned a texts)⟩

def twoEnds : CompiledModule :=
  ⟨alpha, [.headerEnd, .text "// A", .headerEnd], []⟩

def isRejected {α : Type} (x : BuildM α) (w : Workspace) : Bool :=
  match x w with
  | .ok _ _ => false
  | .error e _ => !e.isFileError

theorem isRejected_iff {α : Type} {x : BuildM α} :
    isRejected x w = true ↔ ∃ e, x w = .error e (after x w) ∧ e.isFileError = false := by
  unfold isRejected after
  cases x w <;> simp

theorem hasNul_small (a : Artifacts) (ha : smallProject.artifacts alpha = .ok a) :
    ∀ q ∈ a.all, q.hasNul = false := by
  obtain rfl := Except.ok.inj (artifacts_small.symm.trans ha)
  decide +kernel

theorem source_small (source : Path)
    (h : smallProject.modules.locate alpha = .ok (.file source)) :
    source.normalize.parts ≠ [] := by
  cases h
  decide

theorem persist_rejected_twoEnds :
    ∃ e w', smallProject.persist twoEnds .null (.text "data") smallWorkspace = .error e w' ∧
      e.isFileError = false ∧ w' = smallWorkspace := by
  obtain ⟨e, herror, he⟩ := isRejected_iff.mp (show isRejected
    (smallProject.persist twoEnds .null (.text "data")) smallWorkspace = true from rfl)
  have hrejected := persist_rejected (m := twoEnds) hasNul_small rfl
    source_small herror he
  refine ⟨e, _, herror, he, hrejected.2.1 fun a texts hplan => ?_⟩
  cases hplan.2.2

/-- A request may be rejected when some of its files are written. -/
theorem not_forall_unchanged_of_persist_rejected :
    ¬ ∀ (p : Project) (m : CompiledModule) (environment : Value) (externs : Content)
        (w w' : Workspace) (e : BuildError),
      (∀ a, p.artifacts m.name = .ok a → ∀ q ∈ a.all, q.hasNul = false) →
      (p.output.normalize.child p.config.supportDir).hasNul = false →
      (∀ source, p.modules.locate m.name = .ok (.file source) → source.normalize.parts ≠ []) →
      p.persist m environment externs w = .error e w' → e.isFileError = false → w' = w := by
  intro h
  obtain ⟨e, herror, he⟩ := isRejected_iff.mp (show isRejected
    (smallProject.persist ⟨alpha, [], []⟩ .null (.text surrogateText)) smallWorkspace = true by
      decide +kernel)
  have hsame := h smallProject ⟨alpha, [], []⟩ .null (.text surrogateText) smallWorkspace _ e
    hasNul_small rfl source_small herror he
  have hmade : (after (smallProject.persist ⟨alpha, [], []⟩ .null (.text surrogateText))
      smallWorkspace).files.get? ["A", "out"] = some .directory := by
    decide +kernel
  rw [hsame, show smallWorkspace.files.get? ["A", "out"] = none from rfl] at hmade
  cases hmade

end

end Rebuild.Proofs.Rejections
