import Rebuild.Proofs.WholeWrites

namespace Rebuild.Proofs.Unpacking

open Rebuild.FileTree
open Rebuild.Proofs.PathNormal
open Rebuild.Proofs.Lookup
open Rebuild.Proofs.Growth
open Rebuild.Proofs.Directories
open Rebuild.Proofs.Steps
open Rebuild.Proofs.Writes
open Rebuild.Proofs.Runs
open Rebuild.Proofs.SameWrites
open Rebuild.Proofs.Contents
open Rebuild.Proofs.WholeWrites

/-- The path leads to a directory. -/
def IsDirectory (t : FileTree) (p : Path) : Prop :=
  ∃ l, t.resolve p = .ok l ∧ t.get? l = some .directory

theorem isDirectory_iff {t : FileTree} {p : Path} :
    IsDirectory t p ↔ t.isDirectory p = .ok true :=
  isDirectory_eq_true_iff.symm

/-- What was there is there as it was, the files with their bytes and times. -/
structure Keeps (t t' : FileTree) : Prop where
  current : t'.current = t.current
  entry : ∀ l e, t.get? l = some e → t'.get? l = some e

section

variable {t t' : FileTree}

theorem Keeps.refl (t : FileTree) : Keeps t t :=
  ⟨rfl, fun _ _ h => h⟩

theorem Keeps.trans {t'' : FileTree} (h : Keeps t t') (h' : Keeps t' t'') : Keeps t t'' :=
  ⟨h'.current.trans h.current, fun l e he => h'.entry l e (h.entry l e he)⟩

theorem Keeps.below (h : Keeps t t') : Below t t' :=
  ⟨h.current, fun l hl => h.entry l _ hl,
    fun l content modified hl => ⟨content, modified, h.entry l _ hl⟩⟩

theorem Keeps.read {q : Path} {content : ByteArray} (h : Keeps t t')
    (hread : t.read q = .ok content) : t'.read q = .ok content := by
  obtain ⟨l, modified, hl, hfile⟩ := read_eq_ok_iff.mp hread
  exact read_eq_ok_iff.mpr ⟨l, modified, resolve_below h.below hl, h.entry l _ hfile⟩

theorem keeps_of_evolves {now : MTime} {D W : Location → Prop} (h : Evolves now D W t t')
    (hW : ∀ l, W l → t.get? l = none) : Keeps t t' := by
  refine ⟨h.current, fun l e he => ?_⟩
  rcases h.entry l with hsame | ⟨_, hnone, _⟩ | ⟨hl, _⟩
  · rw [hsame, he]
  · simp [hnone] at he
  · simp [hW l hl] at he

end

section

variable {output target : Path} {directory : String} {files : List (String × Content)}
variable {w : Workspace}

theorem unpack_eq_false_iff {w' : Workspace} :
    Support.unpack output directory files w = .ok false w' ↔
      IsDirectory w.files (output.normalize.child directory) ∧ w' = w := by
  rw [isDirectory_iff, unpack_eq_ok_iff_writeAll]
  simp

theorem within_writeAll_child (current : Location) (target : Path)
    (hnames : ∀ file ∈ files, IsPlain file.1) :
    Within current (fun _ => True) (fun l => ∃ file ∈ files, l = file.1 :: endOf current target)
      (Support.writeAll target files) := by
  refine within_writeAll files fun file hfile =>
    (admits_endOf current _).mono (fun _ _ => trivial) ?_
  rintro _ rfl
  exact ⟨file, hfile, endOf_child current target (hnames file hfile)⟩

/-- Where the directory was missing, each file is written to a free place: it is written
only once the directory is there, and nothing was below that before. -/
theorem keeps_writeAll (hstraight : IsStraight target) (hnames : ∀ file ∈ files, IsPlain file.1)
    (habsent : w.files.isDirectory target = .ok false) :
    Keeps w.files (after (Support.writeAll target files) w).files := by
  cases files with
  | nil => exact Keeps.refl w.files
  | cons file rest =>
      cases hfirst : writeFile (target.child file.1) file.2 w with
      | error e u =>
          rw [Support.writeAll, after_bind_of_error hfirst]
          exact keeps_of_evolves (moves_of_writeFile_error hfirst).files fun _ h => h.elim
      | ok r u =>
          have hgrow := (within_writeAll_child w.files.current target hnames w rfl).files
          have hdone := isDirectory_after_writeAll rest
            (components_of_isPlain (hnames file (by simp))) hfirst
          have hasked := isDirectory_of_straight hstraight hgrow.current.symm hdone
          rw [habsent, hgrow.current, Except.ok.injEq, eq_comm, Bool.eq_false_iff] at hasked
          refine keeps_of_evolves hgrow ?_
          rintro _ ⟨f, _, rfl⟩
          rw [endOf_straight w.files.current hstraight]
          cases hentry : w.files.get? (f.1 :: placeFrom w.files.current target) with
          | none => rfl
          | some e =>
              have hpresent : w.files.get? (f.1 :: placeFrom w.files.current target) ≠ none := by
                simp [hentry]
              exact absurd (isDirectoryAt_iff.mpr (get?_parent hpresent)) hasked

theorem keeps_unpack (hstraight : IsStraight (output.normalize.child directory))
    (hnames : ∀ file ∈ files, IsPlain file.1) :
    Keeps w.files (after (Support.unpack output directory files) w).files := by
  unfold after
  rw [unpack_apply]
  cases hasked : w.files.isDirectory (output.normalize.child directory) with
  | error e => exact Keeps.refl w.files
  | ok present =>
      cases present with
      | true => exact Keeps.refl w.files
      | false =>
          have hkept := keeps_writeAll hstraight hnames hasked
          cases hall : Support.writeAll (output.normalize.child directory) files w with
          | error e u => exact after_of_error hall ▸ hkept
          | ok _ u => exact after_of_ok hall ▸ hkept

end

/-- A call to unpack files: a path without double dots, and bytes under plain names, each
name once. -/
structure UnpackCall where
  output : Path
  directory : String
  payloads : List (String × ByteArray)
  straight : IsStraight (output.normalize.child directory)
  ne_nil : payloads ≠ []
  plain : ∀ payload ∈ payloads, IsPlain payload.1
  nodup : (payloads.map (·.1)).Nodup

namespace UnpackCall

def target (c : UnpackCall) : Path :=
  c.output.normalize.child c.directory

def files (c : UnpackCall) : List (String × Content) :=
  c.payloads.map fun payload => (payload.1, .bytes payload.2)

def run (c : UnpackCall) : BuildM Bool :=
  Support.unpack c.output c.directory c.files

variable {c : UnpackCall} {w w' : Workspace}

theorem isStraight_target (c : UnpackCall) : IsStraight c.target :=
  c.straight

theorem plain_of_mem_files {file : String × Content} (h : file ∈ c.files) : IsPlain file.1 := by
  obtain ⟨payload, hpayload, rfl⟩ := List.mem_map.mp h
  exact c.plain payload hpayload

theorem keeps_run (c : UnpackCall) (w : Workspace) : Keeps w.files (after c.run w).files :=
  keeps_unpack c.straight fun _ hfile => plain_of_mem_files hfile

def place (c : UnpackCall) (current : Location) : Location :=
  endOf current c.target

theorem directory_of_run (h : c.run w = .ok true w') :
    w.files.get? (c.place w.files.current) ≠ some .directory ∧
      w'.files.get? (c.place w.files.current) = some .directory := by
  have hkept : w'.files.current = w.files.current := after_of_ok h ▸ (c.keeps_run w).current
  have hdone : w'.files.isDirectory c.target = .ok true :=
    isDirectory_of_unpack (by simp [files, c.ne_nil])
      (fun _ hfile => components_of_isPlain (plain_of_mem_files hfile)) h
  have hasked := isDirectory_of_straight c.isStraight_target hkept.symm hdone
  unfold place
  rw [endOf_straight _ c.isStraight_target, ← hkept]
  refine ⟨?_, get?_of_isDirectory c.isStraight_target hdone⟩
  rcases unpack_eq_ok_iff_writeAll.mp h with ⟨_, hfalse, _⟩ | ⟨habsent, _⟩
  · cases hfalse
  · intro hdir
    rw [isDirectoryAt_iff.mpr hdir] at hasked
    simp [target, habsent] at hasked

theorem read_of_run (h : c.run w = .ok true w') :
    ∀ payload ∈ c.payloads, w'.files.read (c.target.child payload.1) = .ok payload.2 := by
  rcases unpack_eq_ok_iff_writeAll.mp h with ⟨_, hfalse, _⟩ | ⟨_, _, u, hall, rfl⟩
  · cases hfalse
  · intro payload hpayload
    have hnodup : (c.files.map (·.1)).Nodup := by
      rw [files, List.map_map]
      exact c.nodup
    have hmem : (payload.1, Content.bytes payload.2) ∈ c.files := List.mem_map_of_mem hpayload
    exact read_of_writeAll (fun _ => plain_of_mem_files) hnodup hall _ hmem payload.2 rfl

end UnpackCall

def afterCall (w : Workspace) (call : MTime × UnpackCall) : Workspace :=
  after call.2.run { w with now := call.1 }

def afterCalls (calls : List (MTime × UnpackCall)) (w : Workspace) : Workspace :=
  calls.foldl afterCall w

theorem afterCalls_cons (call : MTime × UnpackCall) (calls : List (MTime × UnpackCall))
    (w : Workspace) : afterCalls (call :: calls) w = afterCalls calls (afterCall w call) :=
  List.foldl_cons ..

theorem afterCalls_append (earlier later : List (MTime × UnpackCall)) (w : Workspace) :
    afterCalls (earlier ++ later) w = afterCalls later (afterCalls earlier w) :=
  List.foldl_append

/-- The places of the directories that are unpacked, call after call. -/
def unpackedPlaces : List (MTime × UnpackCall) → Workspace → List Location
  | [], _ => []
  | (now, c) :: calls, w =>
    let rest := unpackedPlaces calls (afterCall w (now, c))
    if returns c.run { w with now } true then c.place w.files.current :: rest else rest

section

variable {calls : List (MTime × UnpackCall)}

theorem keeps_afterCalls (calls : List (MTime × UnpackCall)) (w : Workspace) :
    Keeps w.files (afterCalls calls w).files := by
  induction calls generalizing w with
  | nil => exact Keeps.refl w.files
  | cons call calls ih =>
      have hfirst : Keeps w.files (afterCall w call).files :=
        call.2.keeps_run { w with now := call.1 }
      rw [afterCalls_cons]
      exact hfirst.trans (ih (afterCall w call))

/-- What is a directory is not unpacked any more. -/
theorem not_directory_of_mem_unpackedPlaces {l : Location} {w : Workspace}
    (h : l ∈ unpackedPlaces calls w) : w.files.get? l ≠ some .directory := by
  induction calls generalizing w with
  | nil => cases h
  | cons call calls ih =>
      obtain ⟨now, c⟩ := call
      have hkept : Keeps w.files (afterCall w (now, c)).files := c.keeps_run { w with now }
      have hrest : l ∈ unpackedPlaces calls (afterCall w (now, c)) →
          w.files.get? l ≠ some .directory :=
        fun hl hdir => ih hl (hkept.entry l _ hdir)
      simp only [unpackedPlaces] at h
      split at h
      · rename_i hreturns
        rcases List.mem_cons.mp h with rfl | hl
        · exact (UnpackCall.directory_of_run (returns_iff.mp hreturns)).1
        · exact hrest hl
      · exact hrest h

theorem nodup_unpackedPlaces (calls : List (MTime × UnpackCall)) (w : Workspace) :
    (unpackedPlaces calls w).Nodup := by
  induction calls generalizing w with
  | nil => exact List.nodup_nil
  | cons call calls ih =>
      obtain ⟨now, c⟩ := call
      simp only [unpackedPlaces]
      split
      · rename_i hreturns
        refine List.nodup_cons.mpr ⟨fun hagain => ?_, ih _⟩
        exact not_directory_of_mem_unpackedPlaces hagain
          (UnpackCall.directory_of_run (returns_iff.mp hreturns)).2
      · exact ih _

end

/-- Of any calls, each in the workspace that those before it leave, none changes an entry
that is there, one returns false exactly where its directory is there, and then does
nothing, no directory is unpacked twice, and what was unpacked is there in the end. -/
theorem unpacks_once_and_overwrites_nothing (calls : List (MTime × UnpackCall)) (w : Workspace) :
    (unpackedPlaces calls w).Nodup ∧
    ∀ earlier now c later, calls = earlier ++ (now, c) :: later →
      let u := { afterCalls earlier w with now }
      Keeps u.files (after c.run u).files ∧
      (∀ u', c.run u = .ok false u' ↔ IsDirectory u.files c.target ∧ u' = u) ∧
      ∀ u', c.run u = .ok true u' → ∀ payload ∈ c.payloads,
        (afterCalls calls w).files.read (c.target.child payload.1) = .ok payload.2 := by
  refine ⟨nodup_unpackedPlaces calls w, ?_⟩
  rintro earlier now c later rfl
  refine ⟨c.keeps_run _, fun u' => unpack_eq_false_iff, ?_⟩
  intro u' hrun payload hpayload
  have hcall : afterCall (afterCalls earlier w) (now, c) = u' := after_of_ok hrun
  rw [afterCalls_append, afterCalls_cons, hcall]
  exact (keeps_afterCalls later u').read (UnpackCall.read_of_run hrun payload hpayload)

def outDirectory : Path := .parse "out"

def outerFiles : UnpackCall :=
  ⟨outDirectory, "S", [("a", .empty), ("b", .empty)], by decide, by simp, by decide, by decide⟩

def innerFiles : UnpackCall :=
  ⟨outDirectory, "./S//T", [("a", .empty)], by decide, by simp, by decide, by decide⟩

def blockedFiles : UnpackCall :=
  ⟨outDirectory, "S/a", [("a", .empty)], by decide, by simp, by decide, by decide⟩

def smallCalls : List (MTime × UnpackCall) :=
  [(⟨2, 0⟩, outerFiles), (⟨3, 0⟩, blockedFiles), (⟨4, 0⟩, innerFiles), (⟨5, 0⟩, outerFiles)]

theorem unpacks_once_and_overwrites_nothing_small :
    unpackedPlaces smallCalls smallWorkspace = [["S", "out"], ["T", "S", "out"]] ∧
      (unpackedPlaces smallCalls smallWorkspace).Nodup ∧
      (afterCalls smallCalls smallWorkspace).files.read (innerFiles.target.child "a") =
        .ok .empty := by
  obtain ⟨hnodup, hcalls⟩ := unpacks_once_and_overwrites_nothing smallCalls smallWorkspace
  refine ⟨by decide +kernel, hnodup, ?_⟩
  obtain ⟨_, _, hread⟩ := hcalls (smallCalls.take 2) ⟨4, 0⟩ innerFiles [(⟨5, 0⟩, outerFiles)] rfl
  have hrun := returns_iff.mp (show returns innerFiles.run
    { afterCalls (smallCalls.take 2) smallWorkspace with now := ⟨4, 0⟩ } true = true by
      decide +kernel)
  exact hread _ hrun ("a", .empty) List.mem_cons_self

section

variable {q p target : Path} {v : Content} {w : Workspace}

theorem isDirectory_of_below {t t' : FileTree} (h : Below t t') (hp : IsDirectory t p) :
    IsDirectory t' p := by
  obtain ⟨l, hl, hdir⟩ := hp
  exact ⟨l, resolve_below h hl, h.directory l hdir⟩

theorem isDirectory_after_makeDirs_iff (t : FileTree) (p : Path) :
    IsDirectory (t.makeDirs p).1 p ↔ (t.makeDirs p).2 = .ok () := by
  rcases hmake : t.makeDirs p with ⟨t', fault | _⟩
  · refine iff_of_false ?_ (by simp)
    rintro ⟨l, hl, hdir⟩
    exact not_directory_of_makeDirs hmake hl hdir
  · exact iff_of_true (resolve_of_makeDirs hmake) rfl

theorem isDirectory_after_writeBytes_iff (content : ByteArray)
    (hparent : q.normalize.parent = p.normalize) :
    IsDirectory (after (writeBytes q content) w).files p ↔
      (w.files.makeDirs p.normalize).2 = .ok () := by
  have hmade := isDirectory_after_makeDirs_iff w.files p.normalize
  have hparents := makeParents_apply q w
  rw [hparent] at hparents
  rcases hmake : w.files.makeDirs p.normalize with ⟨files, fault | _⟩
  · rw [hmake] at hparents hmade
    rw [writeBytes, after_bind_of_error hparents]
    simpa [IsDirectory] using hmade
  · rw [hmake] at hparents hmade
    refine iff_of_true ?_ rfl
    have hput : Within files.current (fun _ => True) (fun _ => True)
        (putBytes q content >>= fun _ => (pure q.normalize : BuildM Path)) :=
      within_bind (within_putBytes content (admits_top _ q)) fun _ => within_pure _
    rw [writeBytes, after_bind_of_ok hparents]
    apply isDirectory_of_below (hput { w with files } rfl).files.below
    simpa [IsDirectory] using hmade

/-- Bytes are at hand for the first file, and the directory can be made for it. -/
def Begins (target : Path) (files : List (String × Content)) (t : FileTree) : Prop :=
  (∃ file ∈ files.head?, ∃ content, IsContent file.2 content) ∧
    (t.makeDirs target.normalize).2 = .ok ()

theorem isDirectory_after_writeFile_iff (hparent : q.normalize.parent = p.normalize)
    (habsent : ¬ IsDirectory w.files p) :
    IsDirectory (after (writeFile q v) w).files p ↔
      (∃ content, IsContent v content) ∧ (w.files.makeDirs p.normalize).2 = .ok () := by
  simp only [isContent_iff]
  unfold writeFile
  cases hv : v.toBytes with
  | error fault => exact iff_of_false habsent (by simp)
  | ok content => simpa using isDirectory_after_writeBytes_iff content hparent

theorem isDirectory_after_writeAll_iff {files : List (String × Content)}
    (hnames : ∀ file ∈ files, IsComponent file.1) (habsent : ¬ IsDirectory w.files target) :
    IsDirectory (after (Support.writeAll target files) w).files target ↔
      Begins target files w.files := by
  unfold Begins
  cases files with
  | nil => exact iff_of_false habsent (by simp)
  | cons file rest =>
      have hname : IsComponent file.1 := hnames file (by simp)
      have hfirst := isDirectory_after_writeFile_iff (v := file.2)
        (parent_child_of_isComponent (p := target) hname) habsent
      simp only [List.head?_cons, Option.mem_def, Option.some.injEq, exists_eq_left', ← hfirst]
      cases hwrite : writeFile (target.child file.1) file.2 w with
      | error e u => rw [Support.writeAll, after_bind_of_error hwrite, after_of_error hwrite]
      | ok r u =>
          refine iff_of_true (isDirectory_iff.mpr (isDirectory_after_writeAll rest hname hwrite)) ?_
          rw [after_of_ok hwrite]
          exact isDirectory_iff.mpr
            (isDirectory_of_writeFile (parent_child_of_isComponent hname) hwrite)

theorem resolve_of_isDirectory_error {t : FileTree} {e : BuildError}
    (h : t.isDirectory target = .error e) :
    t.resolve target = .error (.refused .nameTooLong) := by
  unfold FileTree.isDirectory at h
  split at h
  · rename_i fault hprobe
    exact (probe_eq_error_iff.mp hprobe).2
  · cases h

theorem not_isDirectory_of_error {t t' : FileTree} {fault : AccessFault}
    (hfault : fault ≠ .refused .notFound) (h : Below t t')
    (herror : t.resolve target = .error fault) : ¬ IsDirectory t' target := by
  rintro ⟨l, hl, _⟩
  simp [resolve_error_below h hfault herror] at hl

end

/-- An unpacking that fails leaves a directory exactly if its first file has bytes to write
and the directory could be made. That alone decides of the next unpacking to the same
directory: it returns false and changes nothing if the directory is there, and otherwise
does not return false. -/
theorem failed_unpack_leaves_directory_iff {output : Path} {directory : String}
    {files : List (String × Content)} {e : BuildError} {w w' : Workspace}
    (hnames : ∀ file ∈ files, IsComponent file.1)
    (h : Support.unpack output directory files w = .error e w') :
    (IsDirectory w'.files (output.normalize.child directory) ↔
      Begins (output.normalize.child directory) files w.files) ∧
    ∀ now others u, Support.unpack output directory others { w' with now } = .ok false u ↔
      IsDirectory w'.files (output.normalize.child directory) ∧ u = { w' with now } := by
  refine ⟨?_, fun now others u => unpack_eq_false_iff⟩
  rw [unpack_apply] at h
  split at h
  · rename_i hasked
    cases h
    have hlong := resolve_of_isDirectory_error hasked
    have hgrow : Evolves w.now (fun _ => True) (fun _ => False) w.files
        (w.files.makeDirs (output.normalize.child directory).normalize).1 :=
      evolves_makeDirs _ _ fun _ _ _ _ _ _ => trivial
    refine iff_of_false (not_isDirectory_of_error (by simp) (Below.refl _) hlong) ?_
    rintro ⟨_, hmake⟩
    have hmade := (isDirectory_after_makeDirs_iff _ _).mpr hmake
    refine not_isDirectory_of_error (by simp) hgrow.below hlong ?_
    simpa [IsDirectory] using hmade
  · cases h
  · rename_i hasked
    split at h
    · rename_i hall
      cases h
      have habsent : ¬ IsDirectory w.files (output.normalize.child directory) := by
        simp [isDirectory_iff, hasked]
      exact after_of_error hall ▸ isDirectory_after_writeAll_iff hnames habsent
    · cases h

def lateFailure : List (String × Content) :=
  [("a", .bytes .empty), ("b", .value .null)]

def earlyFailure : List (String × Content) :=
  [("b", .text surrogateText), ("a", .bytes .empty)]

theorem failed_unpack_leaves_directory_iff_small :
    (∃ e w', Support.unpack outDirectory "S" lateFailure smallWorkspace = .error e w' ∧
      Support.unpack outDirectory "S" lateFailure w' = .ok false w') ∧
    ∃ e w', Support.unpack outDirectory "S" earlyFailure smallWorkspace = .error e w' ∧
      ¬ IsDirectory w'.files (outDirectory.normalize.child "S") := by
  have hfails : ∀ files, fails (Support.unpack outDirectory "S" files) smallWorkspace = true →
      ∃ e w', Support.unpack outDirectory "S" files smallWorkspace = .error e w' :=
    fun _ h => (fails_iff.mp h).imp fun _ he => ⟨_, he⟩
  constructor
  · obtain ⟨e, w', he⟩ := hfails lateFailure (by decide +kernel)
    obtain ⟨hiff, hnext⟩ := failed_unpack_leaves_directory_iff (by decide) he
    have hbegins : Begins (outDirectory.normalize.child "S") lateFailure smallWorkspace.files :=
      ⟨⟨_, rfl, _, .bytes _⟩, (isDirectory_after_makeDirs_iff _ _).mp
        (isDirectory_iff.mpr (answers_iff.mp (by decide +kernel)))⟩
    exact ⟨e, w', he, (hnext w'.now lateFailure w').mpr ⟨hiff.mpr hbegins, rfl⟩⟩
  · obtain ⟨e, w', he⟩ := hfails earlyFailure (by decide +kernel)
    obtain ⟨hiff, _⟩ := failed_unpack_leaves_directory_iff (by decide) he
    refine ⟨e, w', he, fun hdir => ?_⟩
    obtain ⟨⟨_, ⟨⟩, _, hcontent⟩, _⟩ := hiff.mp hdir
    cases isContent_iff.mp hcontent

/-- A failure at a later file leaves the directory behind. -/
theorem not_forall_failed_unpack_without_directory :
    ¬ ∀ (output : Path) (directory : String) (files : List (String × Content)) (e : BuildError)
      (w w' : Workspace), (∀ file ∈ files, IsPlain file.1) → (files.map (·.1)).Nodup →
        Support.unpack output directory files w = .error e w' →
        ¬ IsDirectory w'.files (output.normalize.child directory) := by
  intro h
  obtain ⟨e, he⟩ := fails_iff.mp (show fails (Support.unpack outDirectory "S" lateFailure)
    smallWorkspace = true by decide +kernel)
  have hdir := answers_iff.mp (show answers
    ((after (Support.unpack outDirectory "S" lateFailure) smallWorkspace).files.isDirectory
      (outDirectory.normalize.child "S")) true = true by decide +kernel)
  exact h outDirectory "S" lateFailure e smallWorkspace _ (by decide) (by decide) he
    (isDirectory_iff.mpr hdir)

end Rebuild.Proofs.Unpacking
