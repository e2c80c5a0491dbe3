import Rebuild.Proofs.Layout
import Rebuild.Proofs.Writes

namespace Rebuild.Proofs.SameWrites

open Rebuild.FileTree
open Rebuild.Proofs.PathNormal
open Rebuild.Proofs.Lookup
open Rebuild.Proofs.Growth
open Rebuild.Proofs.TreeCalls
open Rebuild.Proofs.Directories
open Rebuild.Proofs.Steps
open Rebuild.Proofs.Writes
open Rebuild.Proofs.Layout

section

variable {q r : Path} {w w' u u' : Workspace} {l : Location}

theorem get?_of_makeParents (hq : IsStraight q) (h : makeParents q w = .ok () w') :
    w'.now = w.now ∧ w'.files.current = w.files.current ∧ ∀ k, w'.files.get? k =
      if k <:+ placeFrom w.files.current q.normalize.parent then some .directory
      else w.files.get? k := by
  obtain ⟨files, hmake, rfl⟩ := makeParents_eq_ok_iff.mp h
  obtain ⟨j, hj, hdir⟩ := resolve_of_makeDirs hmake
  have hadmits : Admits w.files.current (· <:+ placeFrom w.files.current q.normalize.parent)
      (fun _ => True) q :=
    admits_of_straight hq trivial fun _ hk => hk
  have hgrow : Evolves w.now (· <:+ placeFrom w.files.current q.normalize.parent)
      (fun _ => False) w.files files := by
    rw [← show (w.files.makeDirs q.normalize.parent).1 = files by rw [hmake]]
    apply evolves_makeDirs
    intro t names k ht hnames hk
    rw [normalize_parent_normalize] at hnames
    exact hadmits.parents t names k ht hnames hk
  rw [resolve_straight (isStraight_parent hq) hj, hgrow.current] at hdir
  refine ⟨rfl, hgrow.current, fun k => ?_⟩
  split
  · rename_i hk
    exact directory_of_suffix hk hdir
  · rename_i hk
    exact hgrow.entry_eq hk not_false

theorem get?_of_writeBytes {content : ByteArray} (hq : IsStraight q)
    (h : writeBytes q content w = .ok r w') :
    w'.now = w.now ∧ w'.files.current = w.files.current ∧ ∀ k, w'.files.get? k =
      if k = placeFrom w.files.current q then some (.file content w.now)
      else if k <:+ placeFrom w.files.current q.normalize.parent then some .directory
      else w.files.get? k := by
  obtain ⟨v, hv, hput, _⟩ := writeBytes_eq_ok_iff.mp h
  obtain ⟨hnow, hcurrent, hview⟩ := get?_of_makeParents hq hv
  obtain ⟨files, hwrite, rfl⟩ := putBytes_eq_ok_iff.mp hput
  obtain ⟨j, hj, _, hcurrent', hview'⟩ := placeAt_eq_ok hwrite
  have hplace : j = placeFrom w.files.current q := hcurrent ▸ resolve_straight hq hj
  refine ⟨hnow, hcurrent'.trans hcurrent, fun k => ?_⟩
  rw [hview', hview, hplace, hnow]

theorem same_of_writeFile {x : Content} {r' : Path} (hq : IsStraight q) (hnow : u.now = w.now)
    (hcurrent : u.files.current = w.files.current) (hw : writeFile q x w = .ok r w')
    (hu : writeFile q x u = .ok r' u') :
    u'.now = w'.now ∧ u'.files.current = w'.files.current ∧
      w'.files.current = w.files.current ∧
      ∀ k, (u.files.get? k = w.files.get? k ∨ k = placeFrom w.files.current q ∨
        k <:+ placeFrom w.files.current q.normalize.parent) →
        u'.files.get? k = w'.files.get? k := by
  obtain ⟨content, hcontent, hw⟩ := writeFile_eq_ok_iff.mp hw
  obtain ⟨content', hcontent', hu⟩ := writeFile_eq_ok_iff.mp hu
  obtain rfl : content' = content := by simpa [hcontent] using hcontent'.symm
  obtain ⟨hwnow, hwcurrent, hwview⟩ := get?_of_writeBytes hq hw
  obtain ⟨hunow, hucurrent, huview⟩ := get?_of_writeBytes hq hu
  refine ⟨hunow.trans (hnow.trans hwnow.symm),
    hucurrent.trans (hcurrent.trans hwcurrent.symm), hwcurrent, fun k hk => ?_⟩
  rw [huview, hwview, hcurrent, hnow]
  split
  · rfl
  · rename_i hplace
    split
    · rfl
    · rename_i hparent
      rcases hk with hsame | heq | hsuffix
      · exact hsame
      · exact absurd heq hplace
      · exact absurd hsuffix hparent

theorem same_of_tryWriteAll {files : List (Path × Content)}
    (hstraight : ∀ file ∈ files, IsStraight file.1) (hnow : u.now = w.now)
    (hcurrent : u.files.current = w.files.current)
    (hw : tryWriteAll files w = .ok [] w') (hu : tryWriteAll files u = .ok [] u')
    (hl : u.files.get? l = w.files.get? l ∨ ∃ file ∈ files,
      l = placeFrom w.files.current file.1 ∨
        l <:+ placeFrom w.files.current file.1.normalize.parent) :
    u'.files.get? l = w'.files.get? l := by
  induction files generalizing w u with
  | nil =>
      cases hw
      cases hu
      simpa using hl
  | cons file files ih =>
      obtain ⟨r, v, hv, hw⟩ := tryWriteAll_cons_eq_nil_iff.mp hw
      obtain ⟨r', x, hx, hu⟩ := tryWriteAll_cons_eq_nil_iff.mp hu
      obtain ⟨hnow', hcurrent', hv', hsame⟩ :=
        same_of_writeFile (hstraight file (by simp)) hnow hcurrent hv hx
      have hrest := ih (fun f hf => hstraight f (by simp [hf])) hnow' hcurrent' hw hu
      rw [hv'] at hrest
      rcases hl with hl | ⟨f, hf, hl⟩
      · exact hrest (.inl (hsame l (.inl hl)))
      · rcases List.mem_cons.mp hf with rfl | hf
        · exact hrest (.inl (hsame l (.inr hl)))
        · exact hrest (.inr ⟨f, hf, hl⟩)

theorem writeAll_eq_ok_iff {target : Path} {files : List (String × Content)} :
    Support.writeAll target files w = .ok () w' ↔
      tryWriteAll (files.map fun file => (target.child file.1, file.2)) w = .ok [] w' := by
  induction files generalizing w with
  | nil => simp [Support.writeAll, tryWriteAll]
  | cons file files ih =>
      rw [Support.writeAll, bind_eq_ok_iff, List.map_cons, tryWriteAll_cons_eq_nil_iff]
      constructor
      · rintro ⟨r, v, hv, hrest⟩
        exact ⟨r, v, hv, ih.mp hrest⟩
      · rintro ⟨r, v, hv, hrest⟩
        exact ⟨r, v, hv, ih.mpr hrest⟩

end

section

variable {p : Project} {names : List ModuleName} {current : Location}
variable {unpacked unpacked' : Bool} {w w' u u' : Workspace} {z : FileTree}

theorem isDirectory_of_straight {t t' : FileTree} {q : Path} (hq : IsStraight q)
    (hcurrent : t'.current = t.current) (h : t.isDirectory q = .ok true) :
    t'.isDirectory q = .ok (t'.isDirectoryAt (placeFrom t.current q)) := by
  obtain ⟨l, hl, _⟩ := isDirectory_eq_true_iff.mp h
  have hnul : q.normalize.hasNul = false := (resolve_eq_ok_iff.mp hl).1.1
  unfold FileTree.isDirectory isDirectoryAt
  rw [probe_of_fits t' hq (fits_of_resolve hq hl), hnul, hcurrent]
  rcases t'.get? (placeFrom t.current q) with _ | _ | _ <;> simp [Entry.isDirectory]

theorem isDirectory_support (hlayout : IsLaidOut p names current) {t t' : FileTree}
    (ht : t.current = current) (ht' : t'.current = current)
    (h : t.isDirectory (supportPath p) = .ok true) :
    t'.isDirectory (supportPath p) = .ok (t'.isDirectoryAt (supportHome p current)) := by
  obtain ⟨hstraight, hplace⟩ := hlayout.place_of_support
  rw [isDirectory_of_straight hstraight (ht'.trans ht.symm) h, ht, hplace]

def supportFiles (p : Project) : List (Path × Content) :=
  Support.payloads.map fun file => ((supportPath p).child file.1, file.2)

theorem mem_supportFiles {file : Path × Content} (h : file ∈ supportFiles p) :
    ∃ payload ∈ Support.payloads, file = ((supportPath p).child payload.1, payload.2) := by
  obtain ⟨payload, hpayload, rfl⟩ := List.mem_map.mp h
  exact ⟨payload, hpayload, rfl⟩

theorem hasBytes_of_mem_supportFiles {file : Path × Content} (h : file ∈ supportFiles p) :
    file.2.HasBytes := by
  obtain ⟨payload, hpayload, rfl⟩ := mem_supportFiles h
  obtain ⟨_, _, rfl⟩ := List.mem_map.mp hpayload
  exact ⟨_, rfl⟩

def supported (p : Project) (w : Workspace) : Workspace :=
  { w with printed := w.printed ++
      ["  ✓ Runtime support written → " ++ (supportPath p).text] }

theorem unpack_eq_ok_iff :
    Support.unpack p.output p.config.supportDir Support.payloads w = .ok unpacked w' ↔
      (w.files.isDirectory (supportPath p) = .ok true ∧ unpacked = false ∧ w' = w) ∨
        (w.files.isDirectory (supportPath p) = .ok false ∧ unpacked = true ∧
          ∃ u, tryWriteAll (supportFiles p) w = .ok [] u ∧ w' = supported p u) := by
  simp only [supportFiles, ← writeAll_eq_ok_iff]
  exact unpack_eq_ok_iff_writeAll

theorem moves_of_unpack (hlayout : IsLaidOut p names current) (hw : w.files.current = current)
    (h : Support.unpack p.output p.config.supportDir Support.payloads w = .ok unpacked w') :
    Moves (· <:+ supportHome p current) (IsPayload p current) w w' :=
  (within_unpack p.output p.config.supportDir
    fun _ hfile => hlayout.admits_of_payloads hfile).of_ok hw h

theorem supportFiles_of_unpack (hlayout : IsLaidOut p names current)
    (hw : w.files.current = current)
    (h : Support.unpack p.output p.config.supportDir Support.payloads w = .ok unpacked w') :
    w.files.get? (supportHome p current) = some .directory ∨
      ∀ file ∈ supportFiles p, IsFile w'.files file.1 := by
  rcases unpack_eq_ok_iff.mp h with ⟨hpresent, _, _⟩ | ⟨_, _, u, hall, rfl⟩
  · have hdir := hpresent.symm.trans (isDirectory_support hlayout hw hw hpresent)
    exact .inl (isDirectoryAt_iff.mp (Except.ok.inj hdir).symm)
  · exact .inr fun file hfile => (isWritten_of_tryWriteAll hall file hfile).isFile

theorem unpack_of_below (hlayout : IsLaidOut p names current) (hw : w.files.current = current)
    (hbelow : Below w.files z) (hz : z.isDirectory (supportPath p) = .ok true)
    (hfiles : w.files.get? (supportHome p current) = some .directory ∨
      ∀ file ∈ supportFiles p, IsFile z file.1) :
    ∃ unpacked w', Support.unpack p.output p.config.supportDir Support.payloads w =
      .ok unpacked w' ∧ Below w'.files z := by
  have hasked := isDirectory_support hlayout (hbelow.current.trans hw) hw hz
  by_cases hdir : w.files.get? (supportHome p current) = some .directory
  · rw [isDirectoryAt_iff.mpr hdir] at hasked
    exact ⟨false, w, unpack_eq_ok_iff.mpr (.inl ⟨hasked, rfl, rfl⟩), hbelow⟩
  · obtain ⟨v, hall, hv⟩ := tryWriteAll_of_below (supportFiles p) hbelow fun file hfile =>
      ⟨hfiles.resolve_left hdir file hfile, hasBytes_of_mem_supportFiles hfile⟩
    rw [Bool.eq_false_iff.mpr fun hpresent => hdir (isDirectoryAt_iff.mp hpresent)] at hasked
    exact ⟨true, supported p v, unpack_eq_ok_iff.mpr (.inr ⟨hasked, rfl, v, hall, rfl⟩), hv⟩

/-- What is found at the support files' directory and below it after they were unpacked
depends on nothing but what was there before. -/
theorem same_of_unpack (hlayout : IsLaidOut p names current) (hw : w.files.current = current)
    (hu : u.files.current = current) (hnow : u.now = w.now)
    (hrun : Support.unpack p.output p.config.supportDir Support.payloads w = .ok unpacked w')
    (hrun' : Support.unpack p.output p.config.supportDir Support.payloads u = .ok unpacked' u')
    (hsame : ∀ l, supportHome p current <:+ l → u.files.get? l = w.files.get? l) :
    ∀ l, supportHome p current <:+ l → u'.files.get? l = w'.files.get? l := by
  have hdone : w'.files.isDirectory (supportPath p) = .ok true := isDirectory_of_unpack_payloads hrun
  have hw' : w'.files.current = current :=
    (moves_of_unpack hlayout hw hrun).files.current.trans hw
  have hasked : u.files.isDirectory (supportPath p) = w.files.isDirectory (supportPath p) := by
    rw [isDirectory_support hlayout hw' hu hdone, isDirectory_support hlayout hw' hw hdone]
    unfold isDirectoryAt
    rw [hsame _ (List.suffix_refl _)]
  intro l hl
  rcases unpack_eq_ok_iff.mp hrun with ⟨hpresent, _, rfl⟩ | ⟨habsent, _, v, hall, rfl⟩
  · rcases unpack_eq_ok_iff.mp hrun' with ⟨_, _, rfl⟩ | ⟨habsent, _⟩
    · exact hsame l hl
    · simp [hasked, hpresent] at habsent
  · rcases unpack_eq_ok_iff.mp hrun' with ⟨hpresent, _⟩ | ⟨_, _, v', hall', rfl⟩
    · simp [hasked, habsent] at hpresent
    · apply same_of_tryWriteAll _ hnow (hu.trans hw.symm) hall hall' (.inl (hsame l hl))
      intro file hfile
      obtain ⟨payload, hpayload, rfl⟩ := mem_supportFiles hfile
      exact (hlayout.place_of_payloads hpayload).1

end

end Rebuild.Proofs.SameWrites
