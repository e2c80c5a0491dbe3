import Rebuild.Proofs.TwinRuns
import Rebuild.Proofs.Runs
import Rebuild.Proofs.SameWrites
import Rebuild.Proofs.Separation

/-!
Writing a module once more, in another tree. Where two trees agree on what concerns
the module and a later tree holds what was written in the first, the module is written
in the second as well, and the trees agree afterwards.
-/

namespace Rebuild.Proofs.Replay

open Rebuild.FileTree
open Rebuild.Proofs.PathNormal
open Rebuild.Proofs.Lookup
open Rebuild.Proofs.Growth
open Rebuild.Proofs.Steps
open Rebuild.Proofs.Writes
open Rebuild.Proofs.Runs
open Rebuild.Proofs.Layout
open Rebuild.Proofs.Agreement
open Rebuild.Proofs.Separation
open Rebuild.Proofs.SameWrites
open Rebuild.Proofs.TwinRuns

variable {p : Project} {names : List ModuleName} {current : Location}
variable {c : CompiledModule} {environment : Value} {externs : Content} {n : ModuleName}

section

variable {a : Artifacts} {unpacked : Bool} {location : SourceLocation} {written : List Path}
variable {w w' : Workspace}

theorem moves_of_writePrimary (hlayout : IsLaidOut p names current) (hn : c.name ∈ names)
    (hw : w.files.current = current)
    (h : p.writePrimary c environment externs w = .ok a w') :
    Moves (· <:+ home p current c.name) (IsOutput p current c.name) w w' :=
  (within_writePrimary environment externs fun _ ha _ hq =>
    hlayout.admits_of_artifacts hn ha (all_of_mem_primary hq)).of_ok hw h

theorem moves_of_writeCompanions (hlayout : IsLaidOut p names current) (hn : n ∈ names)
    (ha : p.artifacts n = .ok a) (hw : w.files.current = current) {needsForeign : Bool}
    (h : writeCompanions location.file? needsForeign a p.config w = .ok written w') :
    Moves (· <:+ home p current n) (IsOutput p current n) w w' :=
  (within_writeCompanions _ _ _ fun _ hq =>
    hlayout.admits_of_artifacts hn ha (all_of_mem_foreignPaths hq)).of_ok hw h

theorem isDirectory_of_writePrimary (hlayout : IsLaidOut p names current)
    (hn : c.name ∈ names) (h : p.writePrimary c environment externs w = .ok a w') :
    w'.files.isDirectory (homeOf p c.name) = .ok true := by
  obtain ⟨ha, _, hwritten⟩ := isWritten_of_writePrimary h
  have hfile := isFileIn_of_artifacts hlayout.config (hlayout.segments c.name hn) ha
    a.implementation (by simp [Artifacts.all, Artifacts.primary])
  exact isDirectory_parent_of_isFile hfile.parent
    (hwritten a.implementation (by simp [Artifacts.primary])).isFile

theorem get?_home (hlayout : IsLaidOut p names current) (hn : n ∈ names) {t : FileTree}
    (ht : t.current = current) (h : t.isDirectory (homeOf p n) = .ok true) :
    t.get? (home p current n) = some .directory := by
  have hplain := hlayout.isPlain_of_segments hn
  have hdir := get?_of_isDirectory (isStraight_homeOf hplain hlayout.output) h
  rwa [placeFrom_homeOf hplain, ht] at hdir

end

/-- The stages in which a module is written: its primary files, the support files, and
its foreign companions. -/
structure Stages (p : Project) (c : CompiledModule) (environment : Value) (externs : Content)
    (a : Artifacts) (w x y v : Workspace) : Prop where
  primary : p.writePrimary c environment externs w = .ok a x
  support : ∃ unpacked, Support.unpack p.output p.config.supportDir Support.payloads x =
    .ok unpacked y
  companions : ∃ location written, p.modules.locate c.name = .ok location ∧
    writeCompanions location.file? c.needsForeign a p.config y = .ok written v

section

variable {a : Artifacts} {w x y v : Workspace}

theorem persist_eq_ok_iff_stages :
    p.persist c environment externs w = .ok a v ↔
      ∃ x y, Stages p c environment externs a w x y v := by
  rw [persist_eq_ok_iff]
  constructor
  · rintro ⟨location, x, unpacked, y, written, hlocation, hprimary, hsupport, hcompanions⟩
    exact ⟨x, y, hprimary, ⟨unpacked, hsupport⟩, ⟨location, written, hlocation, hcompanions⟩⟩
  · rintro ⟨x, y, hprimary, ⟨unpacked, hsupport⟩, ⟨location, written, hlocation, hcompanions⟩⟩
    exact ⟨location, x, unpacked, y, written, hlocation, hprimary, hsupport, hcompanions⟩

/-- What each stage may change. -/
structure Stages.Stays (p : Project) (current : Location) (n : ModuleName)
    (w x y v : Workspace) : Prop where
  primary : Moves (· <:+ home p current n) (IsOutput p current n) w x
  support : Moves (· <:+ supportHome p current) (IsPayload p current) x y
  companions : Moves (· <:+ home p current n) (IsOutput p current n) y v

theorem Stages.stays (hlayout : IsLaidOut p names current) (hn : c.name ∈ names)
    (hw : w.files.current = current) (h : Stages p c environment externs a w x y v) :
    Stages.Stays p current c.name w x y v := by
  obtain ⟨hprimary, ⟨unpacked, hsupport⟩, ⟨location, written, _, hcompanions⟩⟩ := h
  have hx := moves_of_writePrimary hlayout hn hw hprimary
  have hxc : x.files.current = current := hx.files.current.trans hw
  have hy := moves_of_unpack hlayout hxc hsupport
  have ha := (isWritten_of_writePrimary hprimary).1
  exact ⟨hx, hy, moves_of_writeCompanions hlayout hn ha (hy.files.current.trans hxc) hcompanions⟩

theorem agree_of_support {t t' : FileTree} {now : MTime} (hlayout : IsLaidOut p names current)
    (hn : n ∈ names) (hhome : t.get? (home p current n) = some .directory)
    (ht : Evolves now (· <:+ supportHome p current) (IsPayload p current) t t') :
    Agree (Concerns p current n) t t' := by
  refine ⟨ht.current, fun l hl => ?_⟩
  rcases ht.entry l with hsame | ⟨hmade, hnone, _⟩ | ⟨⟨file, _, rfl⟩, _⟩
  · exact hsame
  · have hdir := directory_of_suffix (suffix_home_of_makes hl (.inr hmade) (n := n)) hhome
    simp [hnone] at hdir
  · exact absurd (List.suffix_cons _ _) (not_support_of_concerns hlayout hn hl)

theorem entry_eq_of_home {t t' : FileTree} {now : MTime}
    (ht : Evolves now (· <:+ home p current n) (IsOutput p current n) t t') {l : Location}
    (hl : ¬ Concerns p current n l) : t'.get? l = t.get? l :=
  ht.entry_eq (fun hhome => hl (.inr (.inl hhome))) fun houtput => hl (.inr (.inr houtput))

end

section

variable {a : Artifacts} {u x y v w x' y' : Workspace} {z : FileTree}

theorem writePrimary_again (hlayout : IsLaidOut p names current) (hn : c.name ∈ names)
    (hu : u.files.current = current) (h : p.writePrimary c environment externs u = .ok a x)
    (hnow : w.now = u.now) (hw : w.files.current = current)
    (hagree : ∀ l, Concerns p current c.name l → ¬ l <:+ home p current c.name →
      w.files.get? l = u.files.get? l)
    (hx : Below x.files z) (hbelow : Below w.files z) :
    ∃ x', p.writePrimary c environment externs w = .ok a x' ∧ Below x'.files z ∧
      Agree (Concerns p current c.name) x.files x'.files := by
  obtain ⟨texts, hplan, hall⟩ := writePrimary_eq_ok_iff.mp h
  have hplace : ∀ file ∈ primaryFiles a texts externs, IsStraight file.1 ∧
      placeFrom current file.1.normalize.parent = home p current c.name := by
    intro file hfile
    have hall := all_of_mem_primary (primary_of_mem_primaryFiles hfile)
    obtain ⟨hstraight, hparent, _⟩ := hlayout.place_of_artifacts hn hplan.2.1 hall
    exact ⟨hstraight, hparent⟩
  obtain ⟨x', hall', hx'⟩ := tryWriteAll_of_below (primaryFiles a texts externs) hbelow
    fun file hfile => ⟨(isWritten_of_tryWriteAll hall file hfile).isFile.below hx,
      hasBytes_of_tryWriteAll hall file hfile⟩
  refine ⟨x', writePrimary_eq_ok_iff.mpr ⟨texts, hplan, hall'⟩, hx', ?_, fun l hl => ?_⟩
  · rw [← hx'.current, hx.current]
  · apply same_of_tryWriteAll (fun file hfile => (hplace file hfile).1) hnow
      (hw.trans hu.symm) hall hall'
    by_cases hhome : l <:+ home p current c.name
    · have hfirst : (a.implementation, Content.text texts.2) ∈ primaryFiles a texts externs := by
        simp [primaryFiles]
      refine .inr ⟨_, hfirst, .inr ?_⟩
      rw [hu, (hplace _ hfirst).2]
      exact hhome
    · exact .inl (hagree l hl hhome)

theorem writeCompanions_again (hlayout : IsLaidOut p names current) (hn : n ∈ names)
    (ha : p.artifacts n = .ok a) {location : SourceLocation}
    (hlocation : p.modules.locate n = .ok location) {needsForeign : Bool} {written : List Path}
    (h : writeCompanions location.file? needsForeign a p.config y = .ok written v)
    (htwin : Twin (Concerns p current n) current (homeOf p n) y y') :
    ∃ v', writeCompanions location.file? needsForeign a p.config y' = .ok written v' ∧
      Agree (Concerns p current n) v.files v'.files := by
  have hlockstep : Lockstep (Twin (Concerns p current n) current (homeOf p n))
      (writeCompanions location.file? needsForeign a p.config) := by
    apply lockstep_writeCompanions
    · intro source found hsource hfound i hi
      have hlocate : p.modules.locate n = .ok (.file source) := by
        rcases location with source' | policy
        · cases hsource
          exact hlocation
        · cases hsource
      have hinputs : p.inputs source = .ok (source :: found.values) := by
        simp [Project.inputs, hfound, bind, Except.bind]
        rfl
      exact leadsIn_of_inputs hlayout hn hlocate hinputs (List.mem_cons_of_mem source hi)
    · intro q hq
      have hfile := isFileIn_of_artifacts hlayout.config (hlayout.segments n hn) ha q hq
      exact ⟨leadsIn_of_artifacts hlayout hn ha hq, hfile.parent⟩
  rcases (hlockstep y y' htwin).cases with ⟨_, v₁, v', hv, hv', htwin'⟩ | ⟨e, _, _, hv, _⟩
  · rw [h] at hv
    cases hv
    exact ⟨v', hv', htwin'.agree⟩
  · simp [h] at hv

/-- A module is written in another tree as well. The two trees agree afterwards on what
concerns the module, and all that is in the second is in the later one. -/
theorem Stages.again (hlayout : IsLaidOut p names current) (hn : c.name ∈ names)
    (hu : u.files.current = current) (h : Stages p c environment externs a u x y v)
    (hnow : w.now = u.now) (hw : w.files.current = current)
    (hagree : ∀ l, Concerns p current c.name l → ¬ l <:+ home p current c.name →
      w.files.get? l = u.files.get? l)
    (hv : Below v.files z) (hbelow : Below w.files z)
    (hsupport : w.files.get? (supportHome p current) = some .directory ∨
      ∀ file ∈ supportFiles p, IsFile z file.1) :
    ∃ x' y' v', Stages p c environment externs a w x' y' v' ∧ Below v'.files z ∧
      Agree (Concerns p current c.name) v.files v'.files := by
  have hstays := h.stays hlayout hn hu
  obtain ⟨hprimary, ⟨unpacked, hunpack⟩, ⟨location, written, hlocation, hcompanions⟩⟩ := h
  have hyz : Below y.files z := hstays.companions.files.below.trans hv
  have hxz : Below x.files z := hstays.support.files.below.trans hyz
  have hxc : x.files.current = current := hstays.primary.files.current.trans hu
  have hyc : y.files.current = current := hstays.support.files.current.trans hxc
  obtain ⟨x', hprimary', hxz', hagreex⟩ :=
    writePrimary_again hlayout hn hu hprimary hnow hw hagree hxz hbelow
  have hx' := moves_of_writePrimary hlayout hn hw hprimary'
  have hxc' : x'.files.current = current := hx'.files.current.trans hw
  have hz : z.isDirectory (supportPath p) = .ok true :=
    isDirectory_below hyz (isDirectory_of_unpack_payloads hunpack)
  obtain ⟨unpacked', y', hunpack', hyz'⟩ := unpack_of_below hlayout hxc' hxz' hz
    (hsupport.imp_left hx'.files.directory)
  have hy' := moves_of_unpack hlayout hxc' hunpack'
  have hdirectory := isDirectory_of_writePrimary hlayout hn hprimary
  have hdirectory' := isDirectory_of_writePrimary hlayout hn hprimary'
  have hagreey : Agree (Concerns p current c.name) y.files y'.files :=
    ((agree_of_support hlayout hn (get?_home hlayout hn hxc hdirectory)
      hstays.support.files).symm.trans hagreex).trans
        (agree_of_support hlayout hn (get?_home hlayout hn hxc' hdirectory') hy'.files)
  have hnow' : y'.now = y.now := by
    rw [hy'.now, hx'.now, hnow, hstays.support.now, hstays.primary.now]
  obtain ⟨v', hcompanions', hagreev⟩ := writeCompanions_again hlayout hn
    (isWritten_of_writePrimary hprimary).1 hlocation hcompanions
    ⟨hyc, hnow', hagreey, isDirectory_below hstays.support.files.below hdirectory,
      isDirectory_below hy'.files.below hdirectory'⟩
  have hstages : Stages p c environment externs a w x' y' v' :=
    ⟨hprimary', ⟨unpacked', hunpack'⟩, ⟨location, written, hlocation, hcompanions'⟩⟩
  have hlast := (hstages.stays hlayout hn hw).companions.files
  refine ⟨x', y', v', hstages, hyz'.of_entries hv hlast.current fun l => ?_, hagreev⟩
  by_cases hl : Concerns p current c.name l
  · exact .inr (hagreev.entry l hl)
  · exact .inl (entry_eq_of_home hlast hl)

end

section

variable {compile : Compiler} {m : ModuleName} {u v w w' : Workspace} {z : FileTree}

theorem rebuild_eq_ok_iff_stages :
    p.rebuild compile n w = .ok () w' ↔ ∃ r a x y, compile w.files n = .ok r ∧
      Stages p r.module r.environment r.externs a (announced n w) x y w' := by
  rw [rebuild_eq_ok_iff]
  constructor
  · rintro ⟨r, a, hr, hpersist⟩
    obtain ⟨x, y, hstages⟩ := persist_eq_ok_iff_stages.mp hpersist
    exact ⟨r, a, x, y, hr, hstages⟩
  · rintro ⟨r, a, x, y, hr, hstages⟩
    exact ⟨r, a, hr, persist_eq_ok_iff_stages.mpr ⟨x, y, hstages⟩⟩

/-- A compiler looks at nothing but the name of a module. -/
def IgnoresFiles (compile : Compiler) : Prop :=
  ∀ t t' n, compile t n = compile t' n

theorem rebuild_again (hlayout : IsLaidOut p names current) (hnamed : NamesModules compile)
    (hcompile : IgnoresFiles compile) (hn : n ∈ names) (hu : u.files.current = current)
    (h : p.rebuild compile n u = .ok () v) (hnow : w.now = u.now)
    (hw : w.files.current = current)
    (hagree : ∀ l, Concerns p current n l → ¬ l <:+ home p current n →
      w.files.get? l = u.files.get? l)
    (hv : Below v.files z) (hbelow : Below w.files z)
    (hsupport : w.files.get? (supportHome p current) = some .directory ∨
      ∀ file ∈ supportFiles p, IsFile z file.1) :
    ∃ w', p.rebuild compile n w = .ok () w' ∧ Below w'.files z ∧
      Agree (Concerns p current n) v.files w'.files := by
  obtain ⟨r, a, x, y, hr, hstages⟩ := rebuild_eq_ok_iff_stages.mp h
  obtain rfl := hnamed u.files n r hr
  obtain ⟨x', y', w', hstages', hbelow', hagree'⟩ :=
    hstages.again (u := announced _ u) (w := announced _ w) hlayout hn hu hnow hw hagree hv hbelow hsupport
  exact ⟨w', rebuild_eq_ok_iff_stages.mpr
    ⟨r, a, x', y', (hcompile w.files u.files r.module.name).trans hr, hstages'⟩, hbelow', hagree'⟩

theorem directories_of_rebuild (hlayout : IsLaidOut p names current)
    (hnamed : NamesModules compile) (hn : n ∈ names) (hw : w.files.current = current)
    (h : p.rebuild compile n w = .ok () w') :
    w'.files.get? (home p current n) = some .directory ∧
      w'.files.get? (supportHome p current) = some .directory := by
  obtain ⟨r, a, x, y, hr, hstages⟩ := rebuild_eq_ok_iff_stages.mp h
  obtain rfl := hnamed w.files n r hr
  have hstays := hstages.stays (w := announced _ w) hlayout hn hw
  have hxc : x.files.current = current := hstays.primary.files.current.trans hw
  have hyc : y.files.current = current := hstays.support.files.current.trans hxc
  obtain ⟨unpacked, hunpack⟩ := hstages.support
  obtain ⟨hstraight, hplace⟩ := hlayout.place_of_support
  have hhome := get?_home hlayout hn hxc (isDirectory_of_writePrimary hlayout hn hstages.primary)
  have hsupport := get?_of_isDirectory hstraight (isDirectory_of_unpack_payloads hunpack)
  rw [hyc, hplace] at hsupport
  exact ⟨hstays.companions.files.directory (hstays.support.files.directory hhome),
    hstays.companions.files.directory hsupport⟩

theorem Stages.support_entry (hlayout : IsLaidOut p names current) (hn : c.name ∈ names)
    (hw : w.files.current = current) {a : Artifacts} {x y : Workspace}
    (h : Stages p c environment externs a w x y v) {l : Location}
    (hl : supportHome p current <:+ l) :
    x.files.get? l = w.files.get? l ∧ v.files.get? l = y.files.get? l := by
  have hstays := h.stays hlayout hn hw
  have haway : ¬ Concerns p current c.name l :=
    fun hconcerns => not_support_of_concerns hlayout hn hconcerns hl
  exact ⟨entry_eq_of_home hstays.primary.files haway,
    entry_eq_of_home hstays.companions.files haway⟩

theorem supportFiles_of_rebuild (hlayout : IsLaidOut p names current)
    (hnamed : NamesModules compile) (hn : n ∈ names) (hw : w.files.current = current)
    (h : p.rebuild compile n w = .ok () w') :
    w.files.get? (supportHome p current) = some .directory ∨
      ∀ file ∈ supportFiles p, IsFile w'.files file.1 := by
  obtain ⟨r, a, x, y, hr, hstages⟩ := rebuild_eq_ok_iff_stages.mp h
  obtain rfl := hnamed w.files n r hr
  have hstays := hstages.stays (w := announced _ w) hlayout hn hw
  have hxc : x.files.current = current := hstays.primary.files.current.trans hw
  obtain ⟨unpacked, hunpack⟩ := hstages.support
  have hentry : x.files.get? (supportHome p current) = w.files.get? (supportHome p current) :=
    (hstages.support_entry (w := announced _ w) hlayout hn hw (List.suffix_refl _)).1
  rw [← hentry]
  exact (supportFiles_of_unpack hlayout hxc hunpack).imp_right fun hfiles file hfile =>
    (hfiles file hfile).below hstays.companions.files.below

theorem same_support_of_rebuild (hlayout : IsLaidOut p names current)
    (hnamed : NamesModules compile) (hm : m ∈ names) (hn : n ∈ names)
    (hw : w.files.current = current) (hu : u.files.current = current) (hnow : u.now = w.now)
    (h : p.rebuild compile m w = .ok () w') (h' : p.rebuild compile n u = .ok () v)
    (hsame : ∀ l, supportHome p current <:+ l → u.files.get? l = w.files.get? l) :
    ∀ l, supportHome p current <:+ l → v.files.get? l = w'.files.get? l := by
  obtain ⟨r, a, x, y, hr, hstages⟩ := rebuild_eq_ok_iff_stages.mp h
  obtain ⟨r', a', x', y', hr', hstages'⟩ := rebuild_eq_ok_iff_stages.mp h'
  obtain rfl := hnamed w.files m r hr
  obtain rfl := hnamed u.files n r' hr'
  have hstays := hstages.stays (w := announced _ w) hlayout hm hw
  have hstays' := hstages'.stays (w := announced _ u) hlayout hn hu
  obtain ⟨unpacked, hunpack⟩ := hstages.support
  obtain ⟨unpacked', hunpack'⟩ := hstages'.support
  have hbefore : ∀ l, supportHome p current <:+ l → x'.files.get? l = x.files.get? l := by
    intro l hl
    rw [(hstages.support_entry (w := announced _ w) hlayout hm hw hl).1,
      (hstages'.support_entry (w := announced _ u) hlayout hn hu hl).1]
    exact hsame l hl
  have hnowx : x'.now = x.now := by
    rw [hstays'.primary.now, hstays.primary.now]
    exact hnow
  intro l hl
  rw [(hstages.support_entry (w := announced _ w) hlayout hm hw hl).2,
    (hstages'.support_entry (w := announced _ u) hlayout hn hu hl).2]
  exact same_of_unpack hlayout (hstays.primary.files.current.trans hw)
    (hstays'.primary.files.current.trans hu) hnowx hunpack hunpack' hbefore l hl

end

end Rebuild.Proofs.Replay
