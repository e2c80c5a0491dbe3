import Rebuild.Proofs.Staleness
import Rebuild.Proofs.Steps

namespace Rebuild.Proofs.Writes

open Rebuild.FileTree
open Rebuild.Proofs.PathNormal
open Rebuild.Proofs.Lookup
open Rebuild.Proofs.Growth
open Rebuild.Proofs.TreeCalls
open Rebuild.Proofs.Directories
open Rebuild.Proofs.Steps

theorem makeParents_eq_ok_iff {p : Path} {w w' : Workspace} :
    makeParents p w = .ok () w' ↔
      ∃ files, w.files.makeDirs p.normalize.parent = (files, .ok ()) ∧
        w' = { w with files } := by
  rw [makeParents_apply]
  rcases w.files.makeDirs p.normalize.parent with ⟨files, _ | _⟩ <;> simp [eq_comm]

theorem putBytes_eq_ok_iff {p : Path} {content : ByteArray} {w w' : Workspace} :
    putBytes p content w = .ok () w' ↔
      ∃ files, w.files.write p content w.now = .ok files ∧ w' = { w with files } := by
  rw [putBytes_apply]
  cases w.files.write p content w.now <;> simp [eq_comm]

theorem writeBytes_eq_ok_iff {p r : Path} {content : ByteArray} {w w' : Workspace} :
    writeBytes p content w = .ok r w' ↔
      ∃ u, makeParents p w = .ok () u ∧ putBytes p content u = .ok () w' ∧
        r = p.normalize := by
  unfold writeBytes
  simp only [bind_eq_ok_iff, pure_apply]
  constructor
  · rintro ⟨_, u, hu, _, v, hv, h⟩
    cases h
    exact ⟨u, hu, hv, rfl⟩
  · rintro ⟨u, hu, hv, rfl⟩
    exact ⟨(), u, hu, (), w', hv, rfl⟩

theorem writeFile_eq_ok_iff {p r : Path} {v : Content} {w w' : Workspace} :
    writeFile p v w = .ok r w' ↔
      ∃ content, v.toBytes = .ok content ∧ writeBytes p content w = .ok r w' := by
  unfold writeFile
  cases v.toBytes <;> simp

theorem tryWrite_eq_none_iff {p : Path} {v : Content} {w w' : Workspace} :
    tryWrite p v w = .ok none w' ↔ ∃ r, writeFile p v w = .ok r w' := by
  unfold tryWrite
  rw [tryCatch_apply]
  cases h : writeFile p v w with
  | ok r u =>
      rw [bind_of_ok h]
      simp
  | error e u =>
      rw [bind_of_error h]
      cases e <;> simp

theorem writeFile_of_tryWrite {p : Path} {v : Content} {failure : WriteFailure}
    {w w' : Workspace} (h : tryWrite p v w = .ok (some failure) w') :
    ∃ rest, writeFile p v w = .error (.write failure rest) w' := by
  unfold tryWrite at h
  rw [tryCatch_apply] at h
  cases hwrite : writeFile p v w with
  | ok r u =>
      rw [bind_of_ok hwrite] at h
      simp at h
  | error e u =>
      rw [bind_of_error hwrite] at h
      cases e with
      | write first rest =>
          cases h
          exact ⟨rest, rfl⟩
      | _ => cases h

theorem tryWriteAll_cons_eq_ok_iff {p : Path} {v : Content} {rest : List (Path × Content)}
    {failures : List WriteFailure} {w w' : Workspace} :
    tryWriteAll ((p, v) :: rest) w = .ok failures w' ↔
      ∃ failure? u others, tryWrite p v w = .ok failure? u ∧
        tryWriteAll rest u = .ok others w' ∧ failures = failure?.toList ++ others := by
  rw [tryWriteAll]
  simp only [bind_eq_ok_iff, pure_apply]
  constructor
  · rintro ⟨failure?, u, hu, others, v, hv, h⟩
    cases h
    exact ⟨failure?, u, others, hu, hv, rfl⟩
  · rintro ⟨failure?, u, others, hu, hv, rfl⟩
    exact ⟨failure?, u, hu, others, w', hv, rfl⟩

theorem tryWriteAll_cons_eq_nil_iff {p : Path} {v : Content} {rest : List (Path × Content)}
    {w w' : Workspace} :
    tryWriteAll ((p, v) :: rest) w = .ok [] w' ↔
      ∃ r u, writeFile p v w = .ok r u ∧ tryWriteAll rest u = .ok [] w' := by
  rw [tryWriteAll_cons_eq_ok_iff]
  constructor
  · rintro ⟨failure?, u, others, hu, hrest, hnil⟩
    obtain ⟨hnone, rfl⟩ := List.append_eq_nil_iff.mp hnil.symm
    obtain rfl := Option.toList_eq_nil_iff.mp hnone
    obtain ⟨r, hr⟩ := tryWrite_eq_none_iff.mp hu
    exact ⟨r, u, hr, hrest⟩
  · rintro ⟨r, u, hr, hrest⟩
    exact ⟨none, u, [], tryWrite_eq_none_iff.mpr ⟨r, hr⟩, hrest, rfl⟩

/-- The path names a file that was written at the given time. -/
def IsWritten (t : FileTree) (now : MTime) (p : Path) : Prop :=
  ∃ l content, t.resolve p = .ok l ∧ t.get? l = some (.file content now)

theorem IsWritten.evolves {D W : Location → Prop} {t t' : FileTree} {now : MTime} {p : Path}
    (h : IsWritten t now p) (ht : Evolves now D W t t') : IsWritten t' now p := by
  obtain ⟨l, content, hl, hfile⟩ := h
  rcases ht.file hfile with hsame | ⟨_, content', hfile'⟩
  · exact ⟨l, content, resolve_below ht.below hl, hsame⟩
  · exact ⟨l, content', resolve_below ht.below hl, hfile'⟩

theorem IsWritten.timestamp? {t : FileTree} {now : MTime} {p : Path}
    (h : IsWritten t now p) : t.timestamp? p = .ok (some now.timestamp) := by
  obtain ⟨l, content, hl, hfile⟩ := h
  exact Staleness.timestamp?_eq_some_iff.mpr ⟨l, content, now, hl, hfile, rfl⟩

theorem isWritten_of_putBytes {p : Path} {content : ByteArray} {w w' : Workspace}
    (h : putBytes p content w = .ok () w') : IsWritten w'.files w.now p := by
  obtain ⟨files, hwrite, rfl⟩ := putBytes_eq_ok_iff.mp h
  obtain ⟨l, hl, _, _, hview⟩ := placeAt_eq_ok hwrite
  have hgrow : Evolves w.now (fun _ => True) (fun _ => True) w.files files :=
    evolves_of_placeAt hwrite fun _ _ => trivial
  exact ⟨l, content, resolve_below hgrow.below hl, by simp [hview]⟩

theorem isWritten_of_writeFile {p r : Path} {v : Content} {w w' : Workspace}
    (h : writeFile p v w = .ok r w') : IsWritten w'.files w.now p := by
  obtain ⟨content, _, hwrite⟩ := writeFile_eq_ok_iff.mp h
  obtain ⟨u, hu, hput, _⟩ := writeBytes_eq_ok_iff.mp hwrite
  have hnow := ((within_makeParents_onWay w.files.current p).of_ok rfl hu).now
  exact hnow ▸ isWritten_of_putBytes hput

theorem isWritten_of_tryWriteAll {files : List (Path × Content)} {w w' : Workspace}
    (h : tryWriteAll files w = .ok [] w') : ∀ file ∈ files, IsWritten w'.files w.now file.1 := by
  induction files generalizing w with
  | nil => simp
  | cons file files ih =>
      obtain ⟨r, u, hwrite, hrest⟩ := tryWriteAll_cons_eq_nil_iff.mp h
      have hu := (within_writeFile file.2 (admits_top w.files.current file.1)).of_ok rfl hwrite
      have hw' := (within_tryWriteAll files
        fun f _ => admits_top u.files.current f.1).of_ok rfl hrest
      intro f hf
      rcases List.mem_cons.mp hf with rfl | hf
      · exact (isWritten_of_writeFile hwrite).evolves (hu.now ▸ hw'.files)
      · exact hu.now ▸ ih hrest f hf

theorem isDirectory_eq_true_iff {t : FileTree} {p : Path} :
    t.isDirectory p = .ok true ↔ ∃ l, t.resolve p = .ok l ∧ t.get? l = some .directory := by
  rw [← probe_eq_some_iff]
  unfold FileTree.isDirectory
  rcases t.probe p with fault | _ | _ | _ <;> simp [Entry.isDirectory]

theorem get?_of_isDirectory {t : FileTree} {p : Path} (hp : IsStraight p)
    (h : t.isDirectory p = .ok true) : t.get? (placeFrom t.current p) = some .directory := by
  obtain ⟨l, hl, hdir⟩ := isDirectory_eq_true_iff.mp h
  rwa [resolve_straight hp hl] at hdir

theorem isDirectory_below {t u : FileTree} {p : Path} (h : Below t u)
    (hp : t.isDirectory p = .ok true) : u.isDirectory p = .ok true := by
  obtain ⟨l, hl, hdir⟩ := isDirectory_eq_true_iff.mp hp
  exact isDirectory_eq_true_iff.mpr ⟨l, resolve_below h hl, h.directory l hdir⟩

theorem isDirectory_of_writeFile {p q r : Path} {v : Content} {w w' : Workspace}
    (hparent : q.normalize.parent = p.normalize) (h : writeFile q v w = .ok r w') :
    w'.files.isDirectory p = .ok true := by
  obtain ⟨content, _, hwrite⟩ := writeFile_eq_ok_iff.mp h
  obtain ⟨u, hu, hput, _⟩ := writeBytes_eq_ok_iff.mp hwrite
  have hbelow := ((within_putBytes content (admits_top u.files.current q)).of_ok rfl hput).files.below
  obtain ⟨files, hmake, rfl⟩ := makeParents_eq_ok_iff.mp hu
  obtain ⟨l, hl, hdir⟩ := resolve_of_makeDirs hmake
  rw [hparent, resolve_normalize] at hl
  exact isDirectory_below hbelow (isDirectory_eq_true_iff.mpr ⟨l, hl, hdir⟩)

theorem unpack_apply (output : Path) (directory : String) (files : List (String × Content))
    (w : Workspace) :
    Support.unpack output directory files w =
      match w.files.isDirectory (output.normalize.child directory) with
      | .error e => .error e w
      | .ok true => .ok false w
      | .ok false =>
        match Support.writeAll (output.normalize.child directory) files w with
        | .error e u => .error e u
        | .ok () u =>
          .ok true { u with printed := u.printed ++
            ["  ✓ Runtime support written → " ++ (output.normalize.child directory).text] } := by
  unfold Support.unpack
  rw [bind_of_ok (get_apply w)]
  cases w.files.isDirectory (output.normalize.child directory) with
  | error e => rfl
  | ok present =>
      rw [bind_of_ok (lift_ok_apply present w)]
      cases present with
      | true => rfl
      | false =>
          show (Support.writeAll (output.normalize.child directory) files >>= _ : BuildM Bool) w = _
          cases hall : Support.writeAll (output.normalize.child directory) files w with
          | error e u => rw [bind_of_error hall]
          | ok _ u =>
              rw [bind_of_ok hall]
              rfl

theorem unpack_eq_ok_iff_writeAll {output : Path} {directory : String}
    {files : List (String × Content)} {unpacked : Bool} {w w' : Workspace} :
    Support.unpack output directory files w = .ok unpacked w' ↔
      (w.files.isDirectory (output.normalize.child directory) = .ok true ∧
        unpacked = false ∧ w' = w) ∨
      (w.files.isDirectory (output.normalize.child directory) = .ok false ∧ unpacked = true ∧
        ∃ u, Support.writeAll (output.normalize.child directory) files w = .ok () u ∧
          w' = { u with printed := u.printed ++
            ["  ✓ Runtime support written → " ++ (output.normalize.child directory).text] }) := by
  rw [unpack_apply]
  rcases w.files.isDirectory (output.normalize.child directory) with e | _ | _
  · simp
  · cases Support.writeAll (output.normalize.child directory) files w <;> simp [eq_comm]
  · simp [eq_comm]

theorem isDirectory_after_writeAll {target r : Path} {file : String × Content}
    (rest : List (String × Content)) {w u : Workspace} (hname : IsComponent file.1)
    (hfirst : writeFile (target.child file.1) file.2 w = .ok r u) :
    (after (Support.writeAll target (file :: rest)) w).files.isDirectory target = .ok true := by
  have hrest : Within u.files.current (fun _ => True) (fun _ => True)
      (Support.writeAll target rest) :=
    within_writeAll rest fun _ _ => admits_top u.files.current _
  rw [Support.writeAll, after_bind_of_ok hfirst]
  exact isDirectory_below (hrest u rfl).files.below
    (isDirectory_of_writeFile (parent_child_of_isComponent hname) hfirst)

theorem isDirectory_of_unpack {output : Path} {directory : String}
    {files : List (String × Content)} {unpacked : Bool} {w w' : Workspace} (hne : files ≠ [])
    (hnames : ∀ file ∈ files, IsComponent file.1)
    (h : Support.unpack output directory files w = .ok unpacked w') :
    w'.files.isDirectory (output.normalize.child directory) = .ok true := by
  rcases unpack_eq_ok_iff_writeAll.mp h with ⟨hpresent, _, rfl⟩ | ⟨_, _, u, hall, rfl⟩
  · exact hpresent
  · cases files with
    | nil => exact absurd rfl hne
    | cons file rest =>
        obtain ⟨r, v, hfirst, _⟩ := bind_eq_ok_iff.mp hall
        have hdir := isDirectory_after_writeAll rest (hnames file (by simp)) hfirst
        rwa [after_of_ok hall] at hdir

theorem isDirectory_of_unpack_payloads {output : Path} {directory : String} {unpacked : Bool}
    {w w' : Workspace}
    (h : Support.unpack output directory Support.payloads w = .ok unpacked w') :
    w'.files.isDirectory (output.normalize.child directory) = .ok true :=
  isDirectory_of_unpack (by simp [Support.payloads, Support.files])
    (fun _ hfile => components_of_isPlain (plain_of_mem_payloads hfile)) h

theorem makeParents_present {q directory : Path} {w : Workspace}
    (hparent : q.normalize.parent = directory.normalize)
    (h : w.files.isDirectory directory = .ok true) : makeParents q w = .ok () w := by
  obtain ⟨l, hl, hdir⟩ := isDirectory_eq_true_iff.mp h
  refine makeParents_eq_ok_iff.mpr ⟨w.files, ?_, rfl⟩
  rw [hparent]
  exact makeDirs_present ((resolve_normalize w.files directory).trans hl) hdir

def IsFile (t : FileTree) (p : Path) : Prop :=
  ∃ l content modified, t.resolve p = .ok l ∧ t.get? l = some (.file content modified)

theorem IsFile.below {t u : FileTree} {p : Path} (h : IsFile t p) (ht : Below t u) :
    IsFile u p := by
  obtain ⟨l, content, modified, hl, hfile⟩ := h
  obtain ⟨content', modified', hfile'⟩ := ht.file l content modified hfile
  exact ⟨l, content', modified', resolve_below ht hl, hfile'⟩

theorem isFile_iff_timestamp? {t : FileTree} {p : Path} :
    IsFile t p ↔ ∃ s, t.timestamp? p = .ok (some s) := by
  simp only [Staleness.timestamp?_eq_some_iff]
  constructor
  · rintro ⟨l, content, modified, hl, hfile⟩
    exact ⟨modified.timestamp, l, content, modified, hl, hfile, rfl⟩
  · rintro ⟨_, l, content, modified, hl, hfile, _⟩
    exact ⟨l, content, modified, hl, hfile⟩

theorem IsWritten.isFile {t : FileTree} {now : MTime} {p : Path} (h : IsWritten t now p) :
    IsFile t p := by
  obtain ⟨l, content, hl, hfile⟩ := h
  exact ⟨l, content, now, hl, hfile⟩

theorem normalize_snoc_of_isFile {t : FileTree} {p : Path} (h : IsFile t p) :
    ∃ names name, p.normalize = ⟨p.root, names ++ [name]⟩ ∧
      p.normalize.parent = ⟨p.root, names⟩ := by
  obtain ⟨l, content, modified, hl, hfile⟩ := h
  rcases List.eq_nil_or_concat p.normalize.parts with hnil | ⟨names, name, hsnoc⟩
  · have hp : p.normalize = ⟨p.root, []⟩ := by
      rw [← hnil]
      rfl
    have hroot := resolve_root p.root t
    rw [← resolve_normalize, hp, hroot.1, Except.ok.injEq] at hl
    rw [← hl, hroot.2] at hfile
    cases hfile
  · have hself : p.normalize = ⟨p.root, names ++ [name]⟩ := by
      rw [← List.concat_eq_append, ← hsnoc]
      rfl
    exact ⟨names, name, hself, by simp [hself, Path.parent]⟩

theorem resolve_parent_of_isFile {t : FileTree} {p : Path} (h : IsFile t p) :
    ∃ k, t.resolve p.normalize.parent = .ok k ∧ t.get? k = some .directory := by
  obtain ⟨names, name, hself, hparent⟩ := normalize_snoc_of_isFile h
  obtain ⟨l, content, modified, hl, _⟩ := h
  rw [← resolve_normalize, hself] at hl
  rw [hparent]
  exact resolve_init (hself ▸ isNormal_normalize p) hl

theorem isDirectory_parent_of_isFile {t : FileTree} {p q : Path}
    (hparent : q.normalize.parent = p.normalize) (h : IsFile t q) :
    t.isDirectory p = .ok true := by
  obtain ⟨k, hk, hdir⟩ := resolve_parent_of_isFile h
  rw [hparent, resolve_normalize] at hk
  exact isDirectory_eq_true_iff.mpr ⟨k, hk, hdir⟩

theorem resolve_of_parent {t u : FileTree} {p : Path} {k l : Location} (h : Below t u)
    (hp : IsFile u p) (hl : u.resolve p = .ok l) (hk : t.resolve p.normalize.parent = .ok k)
    (hdir : t.get? k = some .directory) : t.resolve p = .ok l := by
  obtain ⟨names, name, hself, hparent⟩ := normalize_snoc_of_isFile hp
  have hnormal : IsNormal ⟨p.root, names ++ [name]⟩ := hself ▸ isNormal_normalize p
  rw [hparent] at hk
  cases hp' : t.resolve p with
  | ok j => rw [← resolve_below h hp', hl]
  | error fault =>
      by_cases hfault : fault = .refused .notFound
      · subst hfault
        rw [← resolve_normalize, hself] at hp'
        exact absurd hp' (resolve_snoc_found hnormal hk hdir)
      · simp [resolve_error_below h hfault hp'] at hl

theorem below_of_placeAt {t t' u : FileTree} {p : Path} {content : ByteArray} {now : MTime}
    (h : Below t u) (hp : IsFile u p) (hplace : t.placeAt p (.file content now) = .ok t') :
    Below t' u := by
  obtain ⟨l, hl, _, hcurrent, hview⟩ := placeAt_eq_ok hplace
  obtain ⟨l', content', modified', hl', hfile⟩ := hp
  have hsame : l' = l := by simpa [resolve_below h hl] using hl'.symm
  subst hsame
  refine ⟨h.current.trans hcurrent.symm, fun j hj => ?_, fun j c m hj => ?_⟩
  · rw [hview] at hj
    split at hj
    · cases hj
    · exact h.directory j hj
  · rw [hview] at hj
    split at hj
    · rename_i heq
      exact ⟨content', modified', heq ▸ hfile⟩
    · exact h.file j c m hj

/-- A path can be written if a later tree has a file there. -/
theorem writeBytes_of_below {p : Path} (content : ByteArray) {w : Workspace} {u : FileTree}
    (h : Below w.files u) (hp : IsFile u p) :
    ∃ w', writeBytes p content w = .ok p.normalize w' ∧ Below w'.files u := by
  obtain ⟨k, hk, hdir⟩ := resolve_parent_of_isFile hp
  obtain ⟨t', hmake, hbelow⟩ := makeDirs_of_below h hk hdir
  obtain ⟨k', hk', hdir'⟩ := resolve_of_makeDirs hmake
  obtain ⟨l, content', modified', hl, hfile⟩ := hp
  have hresolve := resolve_of_parent hbelow ⟨l, content', modified', hl, hfile⟩ hl hk' hdir'
  have hndir : t'.get? l ≠ some .directory := by
    intro hdirl
    have := hbelow.directory l hdirl
    simp [hfile] at this
  obtain ⟨t'', hwrite⟩ := exists_placeAt (.file content w.now) hresolve hndir
  refine ⟨{ w with files := t'' }, ?_, ?_⟩
  · refine writeBytes_eq_ok_iff.mpr ⟨{ w with files := t' }, ?_, ?_, rfl⟩
    · exact makeParents_eq_ok_iff.mpr ⟨t', hmake, rfl⟩
    · exact putBytes_eq_ok_iff.mpr ⟨t'', hwrite, rfl⟩
  · exact below_of_placeAt hbelow ⟨l, content', modified', hl, hfile⟩ hwrite

theorem tryWriteAll_of_below (files : List (Path × Content)) {w : Workspace} {u : FileTree}
    (h : Below w.files u) (hfiles : ∀ file ∈ files, IsFile u file.1 ∧ file.2.HasBytes) :
    ∃ w', tryWriteAll files w = .ok [] w' ∧ Below w'.files u := by
  induction files generalizing w with
  | nil => exact ⟨w, rfl, h⟩
  | cons file files ih =>
      obtain ⟨hfile, content, hcontent⟩ := hfiles file (by simp)
      obtain ⟨v, hwrite, hv⟩ := writeBytes_of_below content h hfile
      obtain ⟨w', hrest, hw'⟩ := ih hv fun f hf => hfiles f (by simp [hf])
      have hfirst : writeFile file.1 file.2 w = .ok file.1.normalize v :=
        writeFile_eq_ok_iff.mpr ⟨content, hcontent, hwrite⟩
      exact ⟨w', tryWriteAll_cons_eq_nil_iff.mpr ⟨_, v, hfirst, hrest⟩, hw'⟩

theorem isExterns_of_mem_primaryFiles {a : Artifacts} {texts : CodeText × CodeText}
    {externs : Content} (h : externs.isExterns = true) {file : Path × Content}
    (hfile : file ∈ primaryFiles a texts externs) : file.2.isExterns = true := by
  simp only [primaryFiles, List.mem_cons, List.not_mem_nil, or_false] at hfile
  rcases hfile with rfl | rfl | rfl
  · rfl
  · rfl
  · exact h

theorem hasBytes_of_tryWriteAll {files : List (Path × Content)} {w w' : Workspace}
    (h : tryWriteAll files w = .ok [] w') : ∀ file ∈ files, file.2.HasBytes := by
  induction files generalizing w with
  | nil => simp
  | cons file files ih =>
      obtain ⟨r, u, hwrite, hrest⟩ := tryWriteAll_cons_eq_nil_iff.mp h
      obtain ⟨content, hcontent, _⟩ := writeFile_eq_ok_iff.mp hwrite
      exact List.forall_mem_cons.mpr ⟨⟨content, hcontent⟩, ih hrest⟩

end Rebuild.Proofs.Writes
