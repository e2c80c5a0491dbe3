import Rebuild.Proofs.Contents
import Rebuild.Proofs.Runs

namespace Rebuild.Proofs.InterfaceRoundTrip

open Rebuild.FileTree
open Rebuild.Proofs.PathNormal
open Rebuild.Proofs.Lookup
open Rebuild.Proofs.Growth
open Rebuild.Proofs.Steps
open Rebuild.Proofs.Writes
open Rebuild.Proofs.Runs
open Rebuild.Proofs.Layout
open Rebuild.Proofs.SameWrites
open Rebuild.Proofs.Contents

variable {p : Project} {m : CompiledModule} {environment : Value} {externs : Content}
variable {a : Artifacts} {w w' : Workspace} {content : ByteArray} {s : String}

/-- The content stands for the text: it is the text or its UTF-8 encoding. -/
inductive IsTextOf : CodeText → Content → Prop
  | text (t : CodeText) : IsTextOf t (.text t)
  | value (s : String) : IsTextOf s (.value (.text s))
  | bytes (s : String) : IsTextOf s (.bytes s.toUTF8)

theorem IsTextOf.exists_string {t : CodeText} (h : IsTextOf t externs)
    (hbytes : externs.HasBytes) :
    ∃ s : String, t.string = .ok s ∧ externs.toBytes = .ok s.toUTF8 := by
  cases h with
  | text t =>
      obtain ⟨s, rfl⟩ := Content.exists_string_of_hasBytes hbytes
      exact ⟨s, CodeText.string_ofString s, Content.toBytes_ofString s⟩
  | value s => exact ⟨s, CodeText.string_ofString s, rfl⟩
  | bytes s => exact ⟨s, CodeText.string_ofString s, rfl⟩

theorem hasBytes_of_persist (h : p.persist m environment externs w = .ok a w') :
    externs.HasBytes := by
  obtain ⟨_, _, _, _, _, _, hprimary, _⟩ := persist_eq_ok_iff.mp h
  obtain ⟨texts, _, hall⟩ := writePrimary_eq_ok_iff.mp hprimary
  exact hasBytes_of_tryWriteAll hall (a.externs, externs) (by simp [primaryFiles])

theorem read_externs_of_writePrimary (hcontent : externs.toBytes = .ok content)
    (h : p.writePrimary m environment externs w = .ok a w') :
    w'.files.read a.externs = .ok content := by
  obtain ⟨texts, _, hall⟩ := writePrimary_eq_ok_iff.mp h
  obtain ⟨_, u, _, hall⟩ := tryWriteAll_cons_eq_nil_iff.mp hall
  obtain ⟨_, v, _, hall⟩ := tryWriteAll_cons_eq_nil_iff.mp hall
  obtain ⟨_, x, hwrite, hrest⟩ := tryWriteAll_cons_eq_nil_iff.mp hall
  cases hrest
  exact read_of_writeFile hwrite hcontent

/-- Unpacking leaves a file alone that is no support file, and any file if no double dot
leads to the support files. -/
theorem read_of_unpack {q : Path} {unpacked : Bool}
    (hsupport : IsStraight (supportPath p) ∨ ∀ file ∈ Support.payloads,
      endOf w.files.current ((supportPath p).child file.1) ≠ endOf w.files.current q)
    (h : Support.unpack p.output p.config.supportDir Support.payloads w = .ok unpacked w')
    (hread : w.files.read q = .ok content) : w'.files.read q = .ok content := by
  rcases hsupport with hstraight | happart
  · refine read_of_evolves (evolves_of_unpack_straight hstraight h) ?_ hread
    obtain ⟨l, modified, hl, hfile⟩ := read_eq_ok_iff.mp hread
    rw [← resolve_eq_endOf hl]
    exact not_not_intro (get?_tail (hfile ▸ Option.some_ne_none _))
  · refine read_of_evolves (evolves_of_unpack h) ?_ hread
    rintro ⟨_, hr, hend⟩
    obtain ⟨file, hfile, rfl⟩ := List.mem_map.mp hr
    obtain ⟨payload, hpayload, rfl⟩ := mem_supportFiles hfile
    exact happart payload hpayload hend.symm

theorem read_externs_of_persist (hcontent : externs.toBytes = .ok content)
    (hforeign : ∀ q ∈ foreignPaths a, endOf w.files.current q ≠ endOf w.files.current a.externs)
    (hsupport : IsStraight (supportPath p) ∨ ∀ file ∈ Support.payloads,
      endOf w.files.current ((supportPath p).child file.1) ≠ endOf w.files.current a.externs)
    (h : p.persist m environment externs w = .ok a w') :
    w'.files.read a.externs = .ok content := by
  obtain ⟨location, u, unpacked, v, written, _, hprimary, hunpack, hcompanions⟩ :=
    persist_eq_ok_iff.mp h
  have hu := ((within_writePrimary (p := p) (m := m) environment externs
    fun _ _ q _ => admits_top w.files.current q).of_ok rfl hprimary).files.current
  have hv := (evolves_of_unpack hunpack).current
  rw [← hu] at hforeign hsupport
  have hread := read_of_unpack hsupport hunpack (read_externs_of_writePrimary hcontent hprimary)
  have hlater := (within_writeCompanions location.file? m.needsForeign p.config
    fun q hq => admits_ends v.files.current hq).of_ok rfl hcompanions
  refine read_of_evolves hlater.files ?_ hread
  rintro ⟨q, hq, hend⟩
  rw [hv] at hend
  exact hforeign q hq hend.symm

theorem readExterns_of_read (ha : p.artifacts m.name = .ok a)
    (h : w.files.read a.externs = .ok s.toUTF8) :
    p.readExterns w.files m.name = .ok (a.externs, Text.unifyLineEnds s) := by
  have htext : w.files.readText a.externs = .ok (Text.unifyLineEnds s) := by
    simp only [FileTree.readText, h, Text.Utf8.decode_toUTF8]
  unfold Project.readExterns
  rw [ha]
  simp [htext, bind, Except.bind, pure, Except.pure]

/-- Interface data that was written comes back with its line ends unified. It comes back
as it was written just in case no carriage return is in it. No output written after the
interface data may end in its place, nor a support file that double dots lead to. -/
theorem readExterns_of_persist {t : CodeText} (hexterns : IsTextOf t externs)
    (hforeign : ∀ q ∈ foreignPaths a, endOf w.files.current q ≠ endOf w.files.current a.externs)
    (hsupport : IsStraight (supportPath p) ∨ ∀ file ∈ Support.payloads,
      endOf w.files.current ((supportPath p).child file.1) ≠ endOf w.files.current a.externs)
    (hrun : p.persist m environment externs w = .ok a w') :
    ∃ s, t.string = .ok s ∧
      p.readExterns w'.files m.name = .ok (a.externs, Text.unifyLineEnds s) ∧
      (p.readExterns w'.files m.name = .ok (a.externs, s) ↔ '\r' ∉ s.toList) := by
  have ha := (isWritten_of_persist hrun).1
  obtain ⟨s, hs, hbytes⟩ := hexterns.exists_string (hasBytes_of_persist hrun)
  have hread := readExterns_of_read ha (read_externs_of_persist hbytes hforeign hsupport hrun)
  refine ⟨s, hs, hread, ?_⟩
  rw [hread, ← Text.unifyLineEnds_eq_self_iff]
  simp

def writeText (s : String) : BuildM Artifacts :=
  smallProject.persist ⟨alpha, [], []⟩ .null (.text s)

theorem writeText_eq_ok {s : String} (h : fails (writeText s) smallWorkspace = false) :
    writeText s smallWorkspace = .ok smallArtifacts (after (writeText s) smallWorkspace) := by
  cases hrun : writeText s smallWorkspace with
  | ok a w' =>
      obtain rfl := Except.ok.inj (artifacts_small.symm.trans (isWritten_of_persist hrun).1)
      rw [after_of_ok hrun]
  | error e w' => simp [fails, hrun] at h

theorem readExterns_of_persist_small :
    ∃ w', writeText "one line" smallWorkspace = .ok smallArtifacts w' ∧
      smallProject.readExterns w'.files alpha = .ok (smallArtifacts.externs, "one line") := by
  have hrun := writeText_eq_ok (s := "one line") (by decide +kernel)
  obtain ⟨s, hs, _, hback⟩ := readExterns_of_persist (m := ⟨alpha, [], []⟩)
    (w := smallWorkspace) (.text "one line") (by decide +kernel) (.inl (by decide)) hrun
  obtain rfl := Except.ok.inj ((CodeText.string_ofString "one line").symm.trans hs)
  exact ⟨_, hrun, hback.mpr (by decide)⟩

/-- Not every text comes back as it was written. -/
theorem not_forall_readExterns_of_persist :
    ¬ ∀ (p : Project) (m : CompiledModule) (environment : Value) (externs : Content) (s : String)
        (a : Artifacts) (w w' : Workspace), IsTextOf s externs → a.all.Nodup →
      p.persist m environment externs w = .ok a w' →
        p.readExterns w'.files m.name = .ok (a.externs, s) := by
  intro h
  have hrun := writeText_eq_ok (s := "two\r\nlines") (by decide +kernel)
  have hback := h smallProject ⟨alpha, [], []⟩ .null (.text "two\r\nlines") "two\r\nlines"
    smallArtifacts smallWorkspace _ (.text _) (by decide +kernel) hrun
  have hread : (smallProject.readExterns
      (after (writeText "two\r\nlines") smallWorkspace).files alpha).toOption.map (·.2) =
        some "two\nlines" := by
    decide +kernel
  simp [hback, Except.toOption] at hread

end Rebuild.Proofs.InterfaceRoundTrip
