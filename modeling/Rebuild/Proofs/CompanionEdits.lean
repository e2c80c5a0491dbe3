import Rebuild.Proofs.CompanionCopies
import Rebuild.Proofs.Fixpoint
import Rebuild.Proofs.Separation

namespace Rebuild.Proofs.CompanionEdits

open Rebuild.FileTree
open Rebuild.Proofs.PathNormal
open Rebuild.Proofs.Lookup
open Rebuild.Proofs.Growth
open Rebuild.Proofs.Steps
open Rebuild.Proofs.Staleness
open Rebuild.Proofs.Writes
open Rebuild.Proofs.Runs
open Rebuild.Proofs.Fixpoint
open Rebuild.Proofs.Layout
open Rebuild.Proofs.Separation
open Rebuild.Proofs.SameWrites
open Rebuild.Proofs.Contents
open Rebuild.Proofs.CompanionCopies

/-- From one tree to another a path was given some content at some time. Apart from that,
directories were made on the way at most. -/
structure IsEdit (q : Path) (content : ByteArray) (modified : MTime) (t t' : FileTree) :
    Prop where
  read : t'.read q = .ok content
  timestamp : t'.timestamp? q = .ok (some modified.timestamp)
  only : Evolves modified (IsOnWay t.current q) (· = endOf t.current q) t t'

theorem isEdit_of_writeBytes {q r : Path} {content : ByteArray} {w w' : Workspace}
    (h : writeBytes q content w = .ok r w') : IsEdit q content w.now w.files w'.files := by
  obtain ⟨u, hparents, hput, _⟩ := writeBytes_eq_ok_iff.mp h
  have hnow := ((within_makeParents_onWay w.files.current q).of_ok rfl hparents).now
  have hwritten := isWritten_of_putBytes hput
  rw [hnow] at hwritten
  exact ⟨read_of_writeBytes h, hwritten.timestamp?,
    ((within_writeBytes content (admits_endOf w.files.current q)).of_ok rfl h).files⟩

/-- A module that a source backs, its outputs and the companions of the source. The outputs
are different files of the module's directory, no path has a double dot, and all of them
fit. -/
structure HasSource (p : Project) (n : ModuleName) (source : Path) (a : Artifacts)
    (found : OrderedMap Extension Path) : Prop where
  location : p.modules.locate n = .ok (.file source)
  artifacts : p.artifacts n = .ok a
  companions : Rebuild.companions source p.config = .ok found
  distinct : a.all.Nodup
  names : NamesFiles p.config
  segments : ∀ s ∈ n.segments, '/' ∉ s.toList
  output : IsStraight p.output
  support : IsStraight (supportPath p)
  source_straight : IsStraight source
  fits : ∀ q ∈ a.all ++ source :: found.values, Fits q

section

variable {p : Project} {n : ModuleName} {source : Path} {a : Artifacts}
variable {found : OrderedMap Extension Path} {q r i : Path} {current l : Location}

theorem HasSource.inputs (h : HasSource p n source a found) :
    p.inputs source = .ok (source :: found.values) := by
  unfold Project.inputs
  rw [h.companions]
  rfl

theorem HasSource.isPlain_of_segments (h : HasSource p n source a found) :
    ∀ s ∈ n.segments, IsPlain s :=
  fun s hs => isPlain_of_mem_segments hs (h.segments s hs)

theorem HasSource.named (h : HasSource p n source a found) (hr : r ∈ a.all) :
    ∃ f, IsPlain f ∧ r = ⟨(homeOf p n).root, (homeOf p n).parts ++ [f]⟩ := by
  obtain ⟨f, hf, _, heq⟩ := named_of_artifacts h.names h.segments h.artifacts r hr
  exact ⟨f, hf, heq⟩

theorem HasSource.output_straight (h : HasSource p n source a found) (hr : r ∈ a.all) :
    IsStraight r := by
  obtain ⟨f, hf, rfl⟩ := h.named hr
  exact isStraight_snoc hf (isStraight_homeOf h.isPlain_of_segments h.output)

theorem HasSource.parent_of_output (h : HasSource p n source a found) (hr : r ∈ a.all) :
    r.normalize.parent = (homeOf p n).normalize := by
  obtain ⟨f, hf, rfl⟩ := h.named hr
  simp [Path.normalize, Path.parent, components_of_isPlain hf]

theorem HasSource.endOf_output (h : HasSource p n source a found) (hr : r ∈ a.all)
    (current : Location) : ∃ f, endOf current r = f :: home p current n := by
  have hstraight := h.output_straight hr
  obtain ⟨f, hf, rfl⟩ := h.named hr
  refine ⟨f, ?_⟩
  rw [endOf_straight current hstraight, placeFrom_snoc hf, placeFrom_homeOf h.isPlain_of_segments]

theorem HasSource.pairwise_outputs (h : HasSource p n source a found) (current : Location) :
    a.all.Pairwise fun q r => endOf current q ≠ endOf current r := by
  refine h.distinct.imp_of_mem fun {q r} hq hr hne heq => hne ?_
  have hq' := h.output_straight hq
  have hr' := h.output_straight hr
  obtain ⟨f, hf, rfl⟩ := h.named hq
  obtain ⟨g, hg, rfl⟩ := h.named hr
  rw [endOf_straight current hq', endOf_straight current hr', placeFrom_snoc hf,
    placeFrom_snoc hg] at heq
  rw [(List.cons.inj heq).1]

theorem HasSource.not_isOnWay (h : HasSource p n source a found) (hq : q ∈ a.all)
    (hr : r ∈ a.all) : ¬ IsOnWay current q (endOf current r) := by
  intro hway
  have hsuffix := isOnWay_straight (h.output_straight hq) hway
  obtain ⟨f, hf⟩ := h.endOf_output hr current
  rw [h.parent_of_output hq, placeFrom_normalize, placeFrom_homeOf h.isPlain_of_segments,
    hf] at hsuffix
  exact Nat.not_succ_le_self _ hsuffix.length_le

theorem HasSource.input_straight (h : HasSource p n source a found)
    (hi : i ∈ source :: found.values) : IsStraight i := by
  rcases List.mem_cons.mp hi with rfl | hi
  · exact h.source_straight
  · exact (isFileIn_of_companions h.names.extensions h.companions i hi).isStraight
      (isStraight_parent h.source_straight)

theorem HasSource.endOf_input (h : HasSource p n source a found)
    (hi : i ∈ source :: found.values) (current : Location) :
    ∃ g, endOf current i = g :: placeFrom current source.normalize.parent := by
  rw [endOf_straight current (h.input_straight hi)]
  rcases List.mem_cons.mp hi with rfl | hi
  · exact placeFrom_eq_cons current (parts_ne_nil_of_companions h.companions)
  · obtain ⟨f, _, hplace⟩ :=
      (isFileIn_of_companions h.names.extensions h.companions i hi).place current
    exact ⟨f, hplace⟩

theorem HasSource.apart (h : HasSource p n source a found) (hq : q ∈ found.values)
    (houtside : ¬ placeFrom current p.output <:+ placeFrom current q)
    (hi : i ∈ source :: found.values) (hr : r ∈ a.all) :
    endOf current i ≠ endOf current r := by
  intro heq
  have hq' := List.mem_cons_of_mem source hq
  obtain ⟨g, hg⟩ := h.endOf_input hi current
  obtain ⟨f, hf⟩ := h.endOf_output hr current
  obtain ⟨g', hg'⟩ := h.endOf_input hq' current
  rw [hg, hf] at heq
  rw [(List.cons.inj heq).2, endOf_straight current (h.input_straight hq')] at hg'
  rw [hg'] at houtside
  exact houtside ((output_suffix_home p current n).trans (List.suffix_cons g' _))

theorem needsRebuild_of_edit {t t' : FileTree} {content : ByteArray} {modified : MTime}
    (h : HasSource p n source a found) (hq : q ∈ found.values)
    (houtside : ¬ placeFrom t.current p.output <:+ placeFrom t.current q)
    (hfresh : p.needsRebuild t n = .ok false) (hedit : IsEdit q content modified t t')
    (hlater : ∀ o, p.outputTimestamp t n = .ok (some o) → o < modified.timestamp) :
    p.needsRebuild t' n = .ok true := by
  have hq' := List.mem_cons_of_mem source hq
  obtain ⟨location, o?, _, ho, ⟨_, hfalse⟩ | ⟨written, age, rfl, _⟩⟩ :=
    needsRebuild_eq_ok_iff.mp hfresh
  · cases hfalse
  · obtain ⟨b, stamps, hb, hstamps, hearliest⟩ := outputTimestamp_eq_ok_iff.mp ho
    obtain rfl : a = b := Except.ok.inj (h.artifacts.symm.trans hb)
    -- The edit is no output, so the outputs keep their age; it is an input, and the latest.
    have houtputs : ∀ r ∈ a.primary, ∀ s?,
        t.timestamp? r = .ok s? → t'.timestamp? r = .ok s? := by
      intro r hr s? hs
      have hr' := all_of_mem_primary hr
      rw [← hs]
      apply timestamp?_of_apart hedit.only (h.output_straight hr')
        (h.fits r (List.mem_append_left _ hr'))
      rw [← endOf_straight t.current (h.output_straight hr')]
      exact (h.apart hq houtside hq' hr').symm
    have ho' : p.outputTimestamp t' n = .ok (some written) :=
      outputTimestamp_eq_ok_iff.mpr
        ⟨a, stamps, hb, timestampsWhilePresent_mono houtputs hstamps, hearliest⟩
    obtain ⟨ages, hages⟩ := exists_timestamps fun i (hi : i ∈ source :: found.values) =>
      timestamp?_of_fits t' (h.fits i (List.mem_append_right _ hi))
    have hage := inputAgeAt_file_eq_ok_iff.mpr ⟨_, ages, h.inputs, hages, rfl⟩
    have hedited := ((timestamps_eq_ok hages).2 _).mpr ⟨q, hq', hedit.timestamp⟩
    exact needsRebuild_eq_ok_iff.mpr ⟨.file source, some written, h.location, ho',
      .inr ⟨written, _, rfl, hage, outdates_newest_iff.mpr ⟨_, hedited, hlater written ho⟩⟩⟩

end

section

variable {p : Project} {m : CompiledModule} {n : ModuleName} {environment : Value}
variable {externs : Content}
variable {source : Path}
variable {a : Artifacts} {found : OrderedMap Extension Path} {w u v w' : Workspace}
variable {unpacked : Bool} {written : List Path} {content : ByteArray} {q target : Path}
variable {ext : Extension}

theorem HasSource.stages {b : Artifacts} (h : HasSource p m.name source a found)
    (hrun : p.persist m environment externs w = .ok b w') :
    ∃ u unpacked v written, p.writePrimary m environment externs w = .ok a u ∧
      Support.unpack p.output p.config.supportDir Support.payloads u = .ok unpacked v ∧
      writeFound found m.needsForeign a p.config v = .ok written w' := by
  obtain ⟨location, u, unpacked, v, written, hlocation, hprimary, hunpack, hcompanions⟩ :=
    persist_eq_ok_iff.mp hrun
  obtain rfl := Except.ok.inj (h.location.symm.trans hlocation)
  obtain rfl := Except.ok.inj (h.artifacts.symm.trans (isWritten_of_writePrimary hprimary).1)
  refine ⟨u, unpacked, v, written, hprimary, hunpack, ?_⟩
  rw [SourceLocation.file?, writeCompanions_some_eq, h.companions] at hcompanions
  exact hcompanions

theorem evolves_before_companions (hsupport : IsStraight (supportPath p))
    (hprimary : p.writePrimary m environment externs w = .ok a u)
    (hunpack : Support.unpack p.output p.config.supportDir Support.payloads u =
      .ok unpacked v) :
    v.now = w.now ∧ Evolves w.now
      (fun l => OnWays w.files.current a.primary l ∨
        l <:+ placeFrom w.files.current (supportPath p))
      (fun l => Ends w.files.current a.primary l ∨ w.files.get? l.tail ≠ some .directory)
      w.files v.files := by
  have ha := (isWritten_of_writePrimary hprimary).1
  have hu := (within_writePrimary (p := p) (m := m) environment externs fun b hb q hq => by
    obtain rfl : a = b := Except.ok.inj (ha.symm.trans hb)
    exact admits_ends w.files.current hq).of_ok rfl hprimary
  have hv := evolves_of_unpack_straight hsupport hunpack
  have hvnow := ((within_unpack p.output p.config.supportDir
    fun _ _ => admits_top u.files.current _).of_ok rfl hunpack).now
  rw [hu.now, hu.files.current] at hv
  refine ⟨hvnow.trans hu.now, (hu.files.mono (fun _ => .inl) fun _ => .inl).trans (hv.mono ?_ ?_)⟩
  · exact fun _ => .inr
  · exact fun l hl => .inr fun hdir => hl (hu.files.directory hdir)

/-- Nothing keeps the path from being a file: it is no directory, and none that leads to
the support files. -/
def IsFree (p : Project) (t : FileTree) (q : Path) : Prop :=
  t.get? (placeFrom t.current q) ≠ some .directory ∧
    ¬ placeFrom t.current q <:+ placeFrom t.current (supportPath p)

/-- If the support files' directory is there, as it is after every build that wrote a
module, or bears one name, an output that is no directory is free. -/
theorem HasSource.isFree {t : FileTree} (h : HasSource p n source a found)
    (hsupport : t.isDirectory (supportPath p) = .ok true ∨ IsPlain p.config.supportDir)
    (htarget : target ∈ a.all) (hdir : t.get? (placeFrom t.current target) ≠ some .directory) :
    IsFree p t target := by
  refine ⟨hdir, fun hsuffix => ?_⟩
  rcases hsupport with hpresent | hplain
  · obtain ⟨l, hl, hfound⟩ := isDirectory_eq_true_iff.mp hpresent
    rw [resolve_eq_endOf hl, endOf_straight _ h.support] at hfound
    exact hdir (directory_of_suffix hsuffix hfound)
  · obtain ⟨f, hf⟩ := h.endOf_output htarget t.current
    rw [endOf_straight _ (h.output_straight htarget)] at hf
    rw [hf, (place_of_supportPath hplain h.output).2] at hsuffix
    exact not_cons_home_suffix_supportHome f hsuffix

/-- A free path among the outputs is open when the companions are written: by then the
module has its directory. -/
theorem HasSource.isOpen (h : HasSource p m.name source a found) (htarget : target ∈ a.all)
    (hfree : IsFree p w.files target)
    (hprimary : p.writePrimary m environment externs w = .ok a u)
    (hunpack : Support.unpack p.output p.config.supportDir Support.payloads u =
      .ok unpacked v) : IsOpen v.files target := by
  obtain ⟨_, hv⟩ := evolves_before_companions h.support hprimary hunpack
  have hheader : a.header ∈ a.primary := by simp [Artifacts.primary]
  refine ⟨?_, ?_⟩
  · have hwritten := (isWritten_of_writePrimary hprimary).2.2 a.header hheader
    refine isDirectory_below (evolves_of_unpack hunpack).below
      (isDirectory_parent_of_isFile ?_ hwritten.isFile)
    rw [h.parent_of_output htarget, h.parent_of_output (all_of_mem_primary hheader),
      normalize_normalize]
  · rw [hv.current, endOf_straight _ (h.output_straight htarget)]
    rcases hv.entry (placeFrom w.files.current target) with
      hsame | ⟨⟨r, hr, hway⟩ | hway, _⟩ | ⟨_, _, _, hfile⟩
    · rw [hsame]
      exact hfree.1
    · rw [← endOf_straight _ (h.output_straight htarget)] at hway
      exact absurd hway (h.not_isOnWay (all_of_mem_primary hr) htarget)
    · exact absurd hway hfree.2
    · simp [hfile]

theorem HasSource.not_written {i : Path} (h : HasSource p m.name source a found)
    (hq : q ∈ found.values)
    (houtside : ¬ placeFrom w.files.current p.output <:+ placeFrom w.files.current q)
    (hread : w.files.read q = .ok content) (hi : i ∈ source :: found.values) :
    ¬ (Ends w.files.current a.all (endOf w.files.current i) ∨
      w.files.get? (endOf w.files.current i).tail ≠ some .directory) := by
  have hq' := List.mem_cons_of_mem source hq
  rintro (⟨r, hr, hend⟩ | hmissing)
  · exact h.apart hq houtside hi hr hend
  · -- The companion is there, so its directory is, and that is the directory of every input.
    obtain ⟨l, modified, hl, hfile⟩ := read_eq_ok_iff.mp hread
    have hdir := get?_tail (hfile ▸ Option.some_ne_none _)
    rw [resolve_eq_endOf hl] at hdir
    obtain ⟨g, hg⟩ := h.endOf_input hi w.files.current
    obtain ⟨g', hg'⟩ := h.endOf_input hq' w.files.current
    rw [hg, List.tail_cons] at hmissing
    rw [hg', List.tail_cons] at hdir
    exact hmissing hdir

theorem ends_mono {current l : Location} {paths paths' : List Path} (hsub : paths ⊆ paths')
    (h : Ends current paths l) : Ends current paths' l := by
  obtain ⟨q, hq, rfl⟩ := h
  exact ⟨q, hsub hq, rfl⟩

theorem HasSource.evolves_of_persist {b : Artifacts} (h : HasSource p m.name source a found)
    (hrun : p.persist m environment externs w = .ok b w') :
    Evolves w.now (fun _ => True)
      (fun l => Ends w.files.current a.all l ∨ w.files.get? l.tail ≠ some .directory)
      w.files w'.files := by
  obtain ⟨u, unpacked, v, written, hprimary, hunpack, hfound⟩ := h.stages hrun
  obtain ⟨hnow, hv⟩ := evolves_before_companions h.support hprimary hunpack
  have hw' := ((within_writeFound found m.needsForeign p.config
    fun q hq => admits_ends v.files.current hq).of_ok rfl hfound).files
  rw [hnow, hv.current] at hw'
  refine (hv.mono (fun _ _ => trivial) ?_).trans (hw'.mono (fun _ _ => trivial) ?_)
  · exact fun l hl => hl.imp_left (ends_mono fun _ => all_of_mem_primary)
  · exact fun l hl => .inl (ends_mono (fun _ => all_of_mem_foreignPaths) hl)

theorem HasSource.read_of_persist {b : Artifacts} (h : HasSource p m.name source a found)
    (hcompanion : found.get? ext = some q)
    (houtside : ¬ placeFrom w.files.current p.output <:+ placeFrom w.files.current q)
    (htarget : destination? a p.config ext = some target)
    (hfree : ext ≠ p.config.headerExt → ext ≠ p.config.implExt → IsFree p w.files target)
    (hread : w.files.read q = .ok content)
    (hrun : p.persist m environment externs w = .ok b w') :
    w'.files.read target = .ok content := by
  have hq := OrderedMap.mem_values_of_get? hcompanion
  have hq' := List.mem_cons_of_mem source hq
  have hmem := all_of_mem_foreignPaths (mem_foreignPaths_of_destination htarget)
  obtain ⟨u, unpacked, v, written, hprimary, hunpack, hfound⟩ := h.stages hrun
  obtain ⟨_, hv⟩ := evolves_before_companions h.support hprimary hunpack
  have hread_v : v.files.read q = .ok content := by
    refine read_of_evolves hv (fun hl => ?_) hread
    exact h.not_written hq houtside hread hq'
      (hl.imp_left (ends_mono fun _ => all_of_mem_primary))
  refine read_of_writeFound hv.current hcompanion htarget ?_ ?_ ?_ hread_v hfound
  · exact (List.pairwise_append.mp (h.pairwise_outputs w.files.current)).2.1
  · exact fun r hr => h.apart hq houtside hq' (all_of_mem_foreignPaths hr)
  · intro hheader himplementation
    refine ⟨h.output_straight hmem, h.fits target (List.mem_append_left _ hmem), ?_, ?_⟩
    · exact h.isOpen hmem (hfree hheader himplementation) hprimary hunpack
    · exact fun r hr => h.not_isOnWay (all_of_mem_foreignPaths hr) hmem

theorem HasSource.needsRebuild_of_persist {b : Artifacts}
    (h : HasSource p m.name source a found) (hq : q ∈ found.values)
    (houtside : ¬ placeFrom w.files.current p.output <:+ placeFrom w.files.current q)
    (hread : w.files.read q = .ok content)
    (hdated : ∀ i ∈ source :: found.values, ∀ s, w.files.timestamp? i = .ok (some s) →
      s ≤ w.now.timestamp)
    (hrun : p.persist m environment externs w = .ok b w') :
    p.needsRebuild w'.files m.name = .ok false := by
  obtain ⟨hb, hwritten⟩ := isWritten_of_persist hrun
  obtain rfl := Except.ok.inj (h.artifacts.symm.trans hb)
  have hgrow := h.evolves_of_persist hrun
  refine needsRebuild_eq_false_iff.mpr ⟨.file source, a, h.location, hb, ?_, ?_⟩
  · exact fun r hr => ⟨_, (hwritten r hr).timestamp?⟩
  · refine ⟨_, h.inputs, ?_, ?_⟩
    · exact fun i hi => timestamp?_of_fits w'.files (h.fits i (List.mem_append_right _ hi))
    · intro i hi r hr s o hs ho
      have hsame : w'.files.timestamp? i = w.files.timestamp? i := by
        apply timestamp?_of_apart hgrow (h.input_straight hi)
          (h.fits i (List.mem_append_right _ hi))
        rw [← endOf_straight _ (h.input_straight hi)]
        exact h.not_written hq houtside hread hi
      have hnow : o = w.now.timestamp := by
        simpa [(hwritten r hr).timestamp?] using ho.symm
      rw [hnow]
      exact hdated i hi s (hsame ▸ hs)

end

section

variable {p : Project} {n : ModuleName} {source q target : Path} {a : Artifacts}
variable {found : OrderedMap Extension Path} {ext : Extension} {t t' : FileTree}
variable {content : ByteArray} {modified : MTime}

theorem HasSource.isFree_of_edit (h : HasSource p n source a found) (hq : q ∈ found.values)
    (houtside : ¬ placeFrom t.current p.output <:+ placeFrom t.current q)
    (hedit : IsEdit q content modified t t') (htarget : target ∈ a.all)
    (hfree : IsFree p t target) : IsFree p t' target := by
  unfold IsFree
  rw [hedit.only.current]
  refine ⟨?_, hfree.2⟩
  rcases hedit.only.entry (placeFrom t.current target) with
    hsame | ⟨hway, _⟩ | ⟨_, _, _, hfile⟩
  · rw [hsame]
    exact hfree.1
  · have hbelow : placeFrom t.current p.output <:+ placeFrom t.current target := by
      obtain ⟨f, hf⟩ := h.endOf_output htarget t.current
      rw [endOf_straight _ (h.output_straight htarget)] at hf
      rw [hf]
      exact (output_suffix_home p t.current n).trans (List.suffix_cons f _)
    have hsuffix := isOnWay_straight (h.input_straight (List.mem_cons_of_mem source hq)) hway
    exact absurd (hbelow.trans (hsuffix.trans (placeFrom_parent_suffix t.current q))) houtside
  · simp [hfile]

/-- An edit of a foreign companion is not lost. In a tree where its module was fresh, a
companion outside the output root is given some content, later than the outputs were
written. Then the module is stale, the companion has a destination, and a build of the
module that returns leaves the content there; the module is fresh again if the build wrote
not before the inputs were changed. The destination of a further companion has to be free. -/
theorem build_copies_edited_companion (h : HasSource p n source a found)
    (hcompanion : found.get? ext = some q)
    (houtside : ¬ placeFrom t.current p.output <:+ placeFrom t.current q)
    (hfree : ∀ target, destination? a p.config ext = some target →
      ext ≠ p.config.headerExt → ext ≠ p.config.implExt → IsFree p t target)
    (hfresh : p.needsRebuild t n = .ok false)
    (hedit : IsEdit q content modified t t')
    (hlater : ∀ o, p.outputTimestamp t n = .ok (some o) → o < modified.timestamp) :
    p.needsRebuild t' n = .ok true ∧
      ∃ target, destination? a p.config ext = some target ∧
        ∀ (compile : Compiler) (request : Value) (v v' : Workspace) (built : List ModuleName),
          v.files = t' → ModuleName.ofValue request = .ok n →
          (∀ c, compile t' n = .ok c → c.module.name = n) →
          p.build compile [request] v = .ok built v' →
            v'.files.read target = .ok content ∧
              ((∀ i ∈ source :: found.values, ∀ s, t'.timestamp? i = .ok (some s) →
                  s ≤ v.now.timestamp) →
                p.needsRebuild v'.files n = .ok false) := by
  have hq := OrderedMap.mem_values_of_get? hcompanion
  have hstale := needsRebuild_of_edit h hq houtside hfresh hedit hlater
  obtain ⟨target, htarget⟩ := exists_destination h.artifacts h.companions hcompanion
  refine ⟨hstale, target, htarget, ?_⟩
  rintro compile request v v' built rfl hrequest hnamed hrun
  have hnames : Names [request] [n] := by simp [Names, hrequest]
  have houtside' : ¬ placeFrom v.files.current p.output <:+ placeFrom v.files.current q := by
    rw [hedit.only.current]
    exact houtside
  have hfree' : ext ≠ p.config.headerExt → ext ≠ p.config.implExt →
      IsFree p v.files target := fun hheader himplementation =>
    h.isFree_of_edit hq houtside hedit
      (all_of_mem_foreignPaths (mem_foreignPaths_of_destination htarget))
      (hfree target htarget hheader himplementation)
  cases (build_eq_ok_iff hnames).mp hrun with
  | fresh hfresh' _ => simp [hstale] at hfresh'
  | stale _ hrebuild hrest =>
      cases hrest
      obtain ⟨c, b, hc, hpersist⟩ := rebuild_eq_ok_iff.mp hrebuild
      obtain rfl := hnamed c hc
      refine ⟨?_, fun hdated => ?_⟩
      · exact h.read_of_persist (w := announced c.module.name v) hcompanion houtside' htarget
          hfree' hedit.read hpersist
      · exact h.needsRebuild_of_persist (w := announced c.module.name v) hq houtside' hedit.read
          hdated hpersist

end

def smallCompanions : OrderedMap Extension Path :=
  ⟨[(Config.default.implExt, .parse "src/A.cc"), (Config.default.headerExt, .parse "src/A.hh"),
    (plainExt, .parse "src/A.h"), (inlineExt, .parse "src/A.inl")]⟩

theorem hasSource_small :
    HasSource smallProject alpha (.parse "src/A.purs") smallArtifacts smallCompanions where
  location := rfl
  artifacts := artifacts_small
  companions := rfl
  distinct := by decide
  names := isLaidOut_small.config.namesFiles
  segments := by decide
  output := by decide
  support := by decide
  source_straight := by decide
  fits := by decide

def freshTree : FileTree :=
  smallTree
    |>.place "A" ["out"] .directory (by decide) (by decide)
    |>.place "A.cc" ["A", "out"] (.file .empty ⟨1, 0⟩) (by decide) (by decide)
    |>.place "A.hh" ["A", "out"] (.file .empty ⟨1, 0⟩) (by decide) (by decide)
    |>.place "externs.json" ["A", "out"] (.file .empty ⟨1, 0⟩) (by decide) (by decide)

def freshWorkspace : Workspace :=
  ⟨freshTree, ⟨5, 0⟩, []⟩

def editedContent : ByteArray := "// edited".toUTF8

def edit : BuildM Path :=
  writeBytes (.parse "src/A.inl") editedContent

theorem isEdit_small :
    IsEdit (.parse "src/A.inl") editedContent ⟨5, 0⟩ freshTree
      (after edit freshWorkspace).files := by
  have hrun := returns_iff.mp (show returns edit freshWorkspace (.parse "src/A.inl") = true by
    decide +kernel)
  exact isEdit_of_writeBytes hrun

theorem fresh_small : smallProject.needsRebuild freshTree alpha = .ok false :=
  answers_iff.mp (by decide +kernel)

theorem build_copies_edited_companion_small :
    smallProject.needsRebuild (after edit freshWorkspace).files alpha = .ok true ∧
      ∃ v, smallProject.build smallCompiler [.name alpha] (after edit freshWorkspace) =
          .ok [alpha] v ∧
        v.files.read (.parse "out/A/A_ffi.inl") = .ok editedContent ∧
        smallProject.needsRebuild v.files alpha = .ok false := by
  have hwritten : smallProject.outputTimestamp freshTree alpha =
      .ok (some (⟨1, 0⟩ : MTime).timestamp) := answers_iff.mp (by decide +kernel)
  have hlater : ∀ o, smallProject.outputTimestamp freshTree alpha = .ok (some o) →
      o < (⟨5, 0⟩ : MTime).timestamp := by
    intro o ho
    rw [hwritten] at ho
    cases ho
    decide
  have hfree : ∀ target, destination? smallArtifacts .default inlineExt = some target →
      inlineExt ≠ Config.default.headerExt → inlineExt ≠ Config.default.implExt →
        IsFree smallProject freshTree target := by
    rintro _ ⟨⟩ _ _
    exact hasSource_small.isFree (.inr isLaidOut_small.config.support) (by decide +kernel)
      (by decide +kernel)
  have hcompanion : smallCompanions.get? inlineExt = some (.parse "src/A.inl") := rfl
  obtain ⟨hstale, target, htarget, hcopied⟩ := build_copies_edited_companion hasSource_small
    hcompanion (by decide +kernel) hfree fresh_small isEdit_small hlater
  cases htarget
  have hrun := returns_iff.mp (show returns (smallProject.build smallCompiler [.name alpha])
    (after edit freshWorkspace) [alpha] = true by decide +kernel)
  have hold : NoneAfter (after edit freshWorkspace).now (after edit freshWorkspace).files :=
    noneAfter_of_entries (by decide +kernel)
  obtain ⟨hread, hagain⟩ := hcopied smallCompiler (.name alpha) _ _ [alpha] rfl rfl
    (fun c hc => namesModules_smallCompiler _ _ c hc) hrun
  exact ⟨hstale, _, hrun, hread, hagain fun i _ s hs => hold.timestamp? hs⟩

end Rebuild.Proofs.CompanionEdits
