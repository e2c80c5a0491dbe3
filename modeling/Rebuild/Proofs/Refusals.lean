import Rebuild.Proofs.Writes

namespace Rebuild.Proofs.Refusals

open Rebuild.FileTree
open Rebuild.Proofs.Lookup
open Rebuild.Proofs.TreeCalls
open Rebuild.Proofs.Directories
open Rebuild.Proofs.Steps
open Rebuild.Proofs.Writes

theorem mem_join (sep : String) {s : String} {pieces : List String} {c : Char} (hs : s ∈ pieces)
    (hc : c ∈ s.toList) : c ∈ (Text.join sep pieces).toList := by
  induction pieces with
  | nil => cases hs
  | cons piece pieces ih =>
      by_cases hpieces : pieces = []
      · subst hpieces
        rwa [List.mem_singleton.mp hs] at hc
      · rw [Text.join_cons sep piece hpieces]
        simp only [String.toList_append, List.mem_append]
        rcases List.mem_cons.mp hs with rfl | hs
        · exact .inl (.inl hc)
        · exact .inr (ih hs)

theorem not_mem_join {pieces : List String} {c : Char} (sep : String)
    (hsep : c ∉ sep.toList) (h : ∀ s ∈ pieces, c ∉ s.toList) :
    c ∉ (Text.join sep pieces).toList := by
  induction pieces with
  | nil => simp [Text.join]
  | cons piece pieces ih =>
      have hrest := ih fun s hs => h s (List.mem_cons_of_mem piece hs)
      by_cases hpieces : pieces = []
      · subst hpieces
        exact h piece (by simp)
      · rw [Text.join_cons sep piece hpieces]
        simp only [String.toList_append, List.mem_append, not_or]
        exact ⟨⟨h piece (by simp), hsep⟩, hrest⟩

theorem hasNul_eq_false_iff {p : Path} :
    p.hasNul = false ↔ ∀ part ∈ p.parts, '\x00' ∉ part.toList := by
  have hroot : '\x00' ∉ p.root.text.toList := by
    cases p.root <;> decide
  simp only [Path.hasNul, Path.text, List.contains_eq_mem, decide_eq_false_iff_not]
  constructor
  · intro h part hpart hmem
    have hjoin := mem_join "/" hpart hmem
    have hne : ¬ p.root.text ++ Text.join "/" p.parts = "" := by
      intro hnil
      rw [(String.append_eq_empty_iff.mp hnil).2] at hjoin
      simp at hjoin
    rw [if_neg hne, String.toList_append] at h
    exact h (List.mem_append_right _ hjoin)
  · intro h
    have hjoin := not_mem_join "/" (by decide) h
    split
    · decide
    · simp [hroot, hjoin]

theorem hasNul_of_subset {root : Path.Root} {parts : List String} {p : Path}
    (h : p.hasNul = false) (hsub : ∀ part ∈ parts, part ∈ p.parts) :
    Path.hasNul ⟨root, parts⟩ = false :=
  hasNul_eq_false_iff.mpr fun part hpart => hasNul_eq_false_iff.mp h part (hsub part hpart)

theorem exists_mem_split {sep c : Char} {s : String} (hc : c ∈ s.toList) (hne : c ≠ sep) :
    ∃ piece ∈ Text.split sep s, c ∈ piece.toList := by
  apply Classical.byContradiction
  intro hnone
  have hsep : c ∉ (String.singleton sep).toList := by simpa using hne
  have hjoin := not_mem_join (.singleton sep) hsep fun piece hpiece hmem =>
    hnone ⟨piece, hpiece, hmem⟩
  rw [Text.join_split] at hjoin
  exact hjoin hc

@[simp] theorem hasNul_normalize (p : Path) : p.normalize.hasNul = p.hasNul := by
  suffices p.normalize.hasNul = false ↔ p.hasNul = false by
    cases hp : p.hasNul <;> simp_all
  rw [hasNul_eq_false_iff, hasNul_eq_false_iff]
  constructor
  · intro h part hpart hmem
    obtain ⟨piece, hpiece, hc⟩ := exists_mem_split hmem (show '\x00' ≠ '/' by decide)
    have hkept : piece ∈ Path.components part := by
      simp only [Path.components, List.mem_filter, decide_eq_true_eq]
      refine ⟨hpiece, ?_, ?_⟩
      · rintro rfl
        simp at hc
      · rintro rfl
        simp at hc
    exact h piece (List.mem_flatMap.mpr ⟨part, hpart, hkept⟩) hc
  · intro h part hpart hmem
    obtain ⟨whole, hwhole, hsplit⟩ := List.mem_flatMap.mp hpart
    have hpiece : part ∈ Text.split '/' whole := (List.mem_filter.mp hsplit).1
    have hjoin := mem_join (.singleton '/') hpiece hmem
    rw [Text.join_split] at hjoin
    exact h whole hwhole hjoin

section

variable {t : FileTree} {p : Path} {fault : AccessFault}

theorem resolve_ne_embeddedNul (h : p.hasNul = false) : t.resolve p ≠ .error .embeddedNul := by
  rw [← hasNul_normalize] at h
  intro hp
  by_cases husable : IsUsable p
  · rw [resolve_of_usable husable] at hp
    cases hwalk : t.walk (startFrom t.current p.root) p.normalize.parts <;> simp [hwalk] at hp
  · have hlong : maxPathBytes ≤ p.normalize.text.utf8ByteSize := by
      simpa [IsUsable, h] using husable
    simp [resolve, h, hlong] at hp

theorem placeAt_error_iff {e : Entry} :
    t.placeAt p e = .error fault ↔
      t.resolve p = .error fault ∨
        fault = .refused .isADirectory ∧ ∃ l, t.resolve p = .ok l ∧ t.get? l = some .directory := by
  cases hp : t.resolve p with
  | error fault' => simp [placeAt_error e hp]
  | ok l =>
      by_cases hl : t.get? l = some .directory
      · simp [placeAt_directory e hp hl, hl, eq_comm]
      · obtain ⟨t', ht'⟩ := exists_placeAt e hp hl
        simp [ht', hl]

theorem makeDir_ne_embeddedNul (h : p.hasNul = false) :
    t.makeDir p ≠ .error .embeddedNul := by
  intro hmake
  cases hp : t.resolve p with
  | error fault =>
      rw [makeDir_error hp, Except.error.injEq] at hmake
      exact resolve_ne_embeddedNul h (hmake ▸ hp)
  | ok l =>
      by_cases hl : t.get? l = none
      · obtain ⟨t', ht'⟩ := exists_makeDir hp hl
        simp [ht'] at hmake
      · simp [makeDir_present hp hl] at hmake

theorem acceptDir_eq_error (h : t.acceptDir p fault = .error fault₀) : fault₀ = fault := by
  unfold acceptDir at h
  split at h <;> simp_all

theorem makeDirsBelow_ne_embeddedNul {root : Path.Root} {names : List String}
    (h : ∀ name ∈ names, '\x00' ∉ name.toList) :
    (makeDirsBelow root names t).2 ≠ .error .embeddedNul := by
  induction names generalizing t with
  | nil => simp [makeDirsBelow_nil]
  | cons name above ih =>
      have hself : Path.hasNul ⟨root, (name :: above).reverse⟩ = false :=
        hasNul_eq_false_iff.mpr fun part hpart => h part (List.mem_reverse.mp hpart)
      have hmade : ∀ u : FileTree, u.makeDir ⟨root, (name :: above).reverse⟩ ≠
          .error .embeddedNul := fun u => makeDir_ne_embeddedNul hself
      have habove := fun u : FileTree => ih (t := u) fun n hn => h n (List.mem_cons_of_mem name hn)
      rw [makeDirsBelow_cons]
      cases hmake : t.makeDir ⟨root, (name :: above).reverse⟩ with
      | ok u => simp
      | error fault =>
          simp only
          split
          · rcases hbelow : makeDirsBelow root above t with ⟨u, fault' | _⟩
            · simpa [hbelow] using habove t
            · simp only
              cases hagain : u.makeDir ⟨root, (name :: above).reverse⟩ with
              | ok u' => simp
              | error fault' =>
                  simp only
                  split
                  · rintro ⟨⟩
                    exact hmade u hagain
                  · intro haccept
                    rw [← acceptDir_eq_error haccept] at hagain
                    exact hmade u hagain
          · intro haccept
            rw [← acceptDir_eq_error haccept] at hmake
            exact hmade t hmake

theorem makeDirs_ne_embeddedNul (h : p.hasNul = false) :
    (t.makeDirs p).2 ≠ .error .embeddedNul := by
  rw [makeDirs_eq]
  apply makeDirsBelow_ne_embeddedNul
  rw [← hasNul_normalize, hasNul_eq_false_iff] at h
  exact fun name hname => h name (List.mem_reverse.mp hname)

end

section

variable {q r : Path} {v : Content} {content : ByteArray} {w w' : Workspace} {e : BuildError}

def IsRefusal (q : Path) (e : BuildError) : Prop :=
  ∃ fault, e = .write ⟨q.normalize, fault⟩ []

theorem path_of_ofWrite {fault : AccessFault} {failure : WriteFailure} {rest : List WriteFailure}
    (h : BuildError.ofWrite q fault = .write failure rest) : failure.path = q.normalize := by
  cases fault with
  | embeddedNul => cases h
  | refused fault =>
      cases h
      rfl

theorem path_of_writeFile {failure : WriteFailure} {rest : List WriteFailure}
    (h : writeFile q v w = .error (.write failure rest) w') : failure.path = q.normalize := by
  unfold writeFile at h
  cases hv : v.toBytes with
  | error fault =>
      rw [hv] at h
      cases fault <;> cases h
  | ok content =>
      simp only [hv] at h
      rcases bind_eq_error_iff.mp h with hparents | ⟨_, u, _, hrest⟩
      · rw [makeParents_apply] at hparents
        rcases hmake : w.files.makeDirs q.normalize.parent with ⟨files, fault | _⟩
        · rw [hmake] at hparents
          exact path_of_ofWrite (EStateM.Result.error.inj hparents).1
        · simp [hmake] at hparents
      · rcases bind_eq_error_iff.mp hrest with hput | ⟨_, u', _, hpure⟩
        · rw [putBytes_apply] at hput
          cases hwrite : u.files.write q content u.now with
          | ok files => simp [hwrite] at hput
          | error fault =>
              rw [hwrite] at hput
              exact path_of_ofWrite (EStateM.Result.error.inj hput).1
        · cases hpure

theorem isRefusal_ofWrite {fault : AccessFault} (h : fault ≠ .embeddedNul) :
    IsRefusal q (.ofWrite q fault) := by
  cases fault with
  | embeddedNul => exact absurd rfl h
  | refused fault => exact ⟨fault, rfl⟩

theorem IsRefusal.isFileError (h : IsRefusal q e) : e.isFileError = true := by
  obtain ⟨fault, rfl⟩ := h
  rfl

theorem isRefusal_of_makeParents (hq : q.hasNul = false)
    (h : makeParents q w = .error e w') : IsRefusal q e := by
  have hparent : q.normalize.parent.hasNul = false :=
    hasNul_of_subset ((hasNul_normalize q).trans hq) fun _ hpart => List.dropLast_subset _ hpart
  rw [makeParents_apply] at h
  rcases hmake : w.files.makeDirs q.normalize.parent with ⟨files, fault | _⟩
  · simp only [hmake] at h
    cases h
    apply isRefusal_ofWrite
    rintro rfl
    exact makeDirs_ne_embeddedNul hparent (congrArg Prod.snd hmake)
  · simp only [hmake] at h
    cases h

theorem isRefusal_of_putBytes (hq : q.hasNul = false)
    (h : putBytes q content w = .error e w') : IsRefusal q e ∧ w' = w := by
  rw [putBytes_apply] at h
  cases hwrite : w.files.write q content w.now with
  | ok files => simp [hwrite] at h
  | error fault =>
      simp only [hwrite] at h
      cases h
      refine ⟨isRefusal_ofWrite ?_, rfl⟩
      rintro rfl
      rcases placeAt_error_iff.mp hwrite with hp | ⟨hfault, _⟩
      · exact resolve_ne_embeddedNul hq hp
      · cases hfault

theorem isRefusal_of_writeBytes (hq : q.hasNul = false)
    (h : writeBytes q content w = .error e w') : IsRefusal q e := by
  rcases bind_eq_error_iff.mp h with hparents | ⟨_, u, _, hrest⟩
  · exact isRefusal_of_makeParents hq hparents
  · rcases bind_eq_error_iff.mp hrest with hput | ⟨_, u', _, hpure⟩
    · exact (isRefusal_of_putBytes hq hput).1
    · cases hpure

theorem isRefusal_of_writeFile (hq : q.hasNul = false) (hv : v.HasBytes)
    (h : writeFile q v w = .error e w') : IsRefusal q e := by
  obtain ⟨content, hcontent⟩ := hv
  unfold writeFile at h
  rw [hcontent] at h
  exact isRefusal_of_writeBytes hq h

end

/-- There are bytes to write, and a path that file calls take. -/
def IsWritable (file : Path × Content) : Prop :=
  file.1.hasNul = false ∧ file.2.HasBytes

/-- Why a write is refused when it is all that is asked of a workspace, if it is. -/
def refusal? (w : Workspace) (file : Path × Content) : Option WriteFailure :=
  match writeFile file.1 file.2 w with
  | .error (.write failure _) _ => some failure
  | _ => none

section

variable {file : Path × Content} {files : List (Path × Content)} {w w' : Workspace}

theorem writeFile_of_refusal? (h : IsWritable file) :
    (refusal? w file = none ∧
        writeFile file.1 file.2 w = .ok file.1.normalize (after (writeFile file.1 file.2) w)) ∨
      ∃ failure, refusal? w file = some failure ∧ failure.path = file.1.normalize ∧
        writeFile file.1 file.2 w =
          .error (.write failure []) (after (writeFile file.1 file.2) w) := by
  unfold refusal? after
  cases hwrite : writeFile file.1 file.2 w with
  | ok r u =>
      obtain ⟨_, _, hbytes⟩ := writeFile_eq_ok_iff.mp hwrite
      obtain ⟨_, _, _, rfl⟩ := writeBytes_eq_ok_iff.mp hbytes
      exact .inl ⟨rfl, rfl⟩
  | error e u =>
      obtain ⟨fault, rfl⟩ := isRefusal_of_writeFile h.1 h.2 hwrite
      exact .inr ⟨_, rfl, rfl, rfl⟩

theorem refusal?_eq_none_iff (h : IsWritable file) :
    refusal? w file = none ↔ ∃ r u, writeFile file.1 file.2 w = .ok r u := by
  rcases writeFile_of_refusal? (w := w) h with ⟨hnone, hwrite⟩ | ⟨failure, hsome, _, hwrite⟩
  · simp [hnone, hwrite]
  · simp [hsome, hwrite]

theorem tryWrite_apply (h : IsWritable file) :
    tryWrite file.1 file.2 w = .ok (refusal? w file) (after (writeFile file.1 file.2) w) := by
  unfold tryWrite
  rw [tryCatch_apply]
  rcases writeFile_of_refusal? (w := w) h with ⟨hnone, hwrite⟩ | ⟨failure, hsome, _, hwrite⟩
  · rw [bind_of_ok hwrite, hnone]
    rfl
  · rw [bind_of_error hwrite, hsome]
    rfl

theorem tryWriteAll_cons_apply (h : IsWritable file) :
    tryWriteAll (file :: files) w =
      match tryWriteAll files (after (writeFile file.1 file.2) w) with
      | .ok failures u => .ok ((refusal? w file).toList ++ failures) u
      | .error e u => .error e u := by
  rw [tryWriteAll, bind_of_ok (tryWrite_apply h)]
  cases hrest : tryWriteAll files (after (writeFile file.1 file.2) w) with
  | ok failures u => rw [bind_of_ok hrest, pure_apply]
  | error e u => rw [bind_of_error hrest]

theorem exists_tryWriteAll (h : ∀ file ∈ files, IsWritable file) (w : Workspace) :
    ∃ failures w', tryWriteAll files w = .ok failures w' := by
  induction files generalizing w with
  | nil => exact ⟨[], w, rfl⟩
  | cons file files ih =>
      obtain ⟨failures, w', hrest⟩ := ih (fun f hf => h f (List.mem_cons_of_mem file hf))
        (after (writeFile file.1 file.2) w)
      exact ⟨_, w', by rw [tryWriteAll_cons_apply (h file (by simp)), hrest]⟩

theorem after_tryWriteAll_cons (h : IsWritable file) :
    after (tryWriteAll (file :: files)) w =
      after (tryWriteAll files) (after (writeFile file.1 file.2) w) := by
  unfold after
  rw [tryWriteAll_cons_apply h]
  cases htry : tryWriteAll files (after (writeFile file.1 file.2) w) <;>
    simp [after] at htry <;> simp [htry]

end

/-- Some of the files come ahead of the first whose text has a surrogate in it. -/
def StopsAfter (before files : List (Path × Content)) (fault : CodeText.Fault) : Prop :=
  ∃ file rest, files = before ++ file :: rest ∧ (∀ f ∈ before, f.2.IsEncodable) ∧
    file.2.toBytes = .error (.unencodable fault)

section

variable {before files : List (Path × Content)} {fault : CodeText.Fault}

theorem StopsAfter.cons {file : Path × Content} (hfile : file.2.IsEncodable)
    (h : StopsAfter before files fault) : StopsAfter (file :: before) (file :: files) fault := by
  obtain ⟨stop, rest, rfl, hbefore, hstop⟩ := h
  exact ⟨stop, rest, rfl, List.forall_mem_cons.mpr ⟨hfile, hbefore⟩, hstop⟩

theorem StopsAfter.exists_not_isEncodable (h : StopsAfter before files fault) :
    ∃ file ∈ files, ¬ file.2.IsEncodable := by
  obtain ⟨file, rest, rfl, _, hfile⟩ := h
  exact ⟨file, by simp, Content.not_isEncodable_of_toBytes hfile⟩

/-- Either all of some files can be written in UTF-8, or there is a first that cannot. -/
theorem isEncodable_or_stopsAfter (h : ∀ file ∈ files, file.2.isExterns = true) :
    (∀ file ∈ files, file.2.IsEncodable) ∨ ∃ before fault, StopsAfter before files fault := by
  induction files with
  | nil => exact .inl (by simp)
  | cons file files ih =>
      rcases Content.isExterns_cases (h file (by simp)) with ⟨hfile, _⟩ | ⟨_, fault, hfault⟩
      · rcases ih fun f hf => h f (List.mem_cons_of_mem file hf) with
          hall | ⟨before, fault, hstop⟩
        · exact .inl (List.forall_mem_cons.mpr ⟨hfile, hall⟩)
        · exact .inr ⟨file :: before, fault, hstop.cons hfile⟩
      · exact .inr ⟨[], fault, file, files, rfl, by simp, hfault⟩

theorem StopsAfter.isWritable (hnul : ∀ file ∈ files, file.1.hasNul = false)
    (hexterns : ∀ file ∈ files, file.2.isExterns = true) (h : StopsAfter before files fault) :
    ∀ file ∈ before, IsWritable file := by
  obtain ⟨stop, rest, rfl, hbefore, _⟩ := h
  intro file hfile
  have hmem : file ∈ before ++ stop :: rest := List.mem_append_left _ hfile
  exact ⟨hnul file hmem,
    Content.hasBytes_of_isEncodable (hexterns file hmem) (hbefore file hfile)⟩

/-- A text with a surrogate in it ends a run of writes. It is the error, and the files ahead
of it were tried. -/
theorem tryWriteAll_of_stopsAfter (hbefore : ∀ file ∈ before, IsWritable file)
    (h : StopsAfter before files fault) (w : Workspace) :
    tryWriteAll files w = .error (.unencodable fault) (after (tryWriteAll before) w) := by
  obtain ⟨stop, rest, rfl, hencodable, hstop⟩ := h
  clear hencodable
  induction before generalizing w with
  | nil =>
      have hwrite : writeFile stop.1 stop.2 w = .error (.unencodable fault) w := by
        unfold writeFile
        rw [hstop]
        rfl
      have htry : tryWrite stop.1 stop.2 w = .error (.unencodable fault) w := by
        unfold tryWrite
        rw [tryCatch_apply, bind_of_error hwrite]
        rfl
      exact bind_of_error htry
  | cons file before ih =>
      have hfile : IsWritable file := hbefore file (by simp)
      have hrest := ih (fun f hf => hbefore f (List.mem_cons_of_mem file hf))
        (after (writeFile file.1 file.2) w)
      rw [List.cons_append, tryWriteAll_cons_apply hfile, hrest, after_tryWriteAll_cons hfile]

end

end Rebuild.Proofs.Refusals
