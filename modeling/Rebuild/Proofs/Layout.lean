import Rebuild.Proofs.Steps

/-!
Where the files of a project lie. Under plain settings each module has a home
below the output root: its outputs are files of that directory whose names hold a
dot, no two modules share a home, and the support files have a home of their own.
-/

namespace Rebuild.Proofs.Layout

open Rebuild.FileTree
open Rebuild.Proofs.PathNormal
open Rebuild.Proofs.Lookup
open Rebuild.Proofs.Steps

theorem isPlain_extend {x ext : String} (hslash : '/' ∉ x.toList) (hx : x ≠ "")
    (hext : IsPlain ext) : IsPlain (x ++ "." ++ ext) := by
  have hlong : 3 ≤ (x ++ "." ++ ext).toList.length := by
    have hx' : x.toList ≠ [] := by simpa using hx
    have hext' : ext.toList ≠ [] := by simpa using hext.1
    have := List.length_pos_iff.mpr hx'
    have := List.length_pos_iff.mpr hext'
    simp only [String.toList_append, List.length_append]
    have : ".".toList.length = 1 := rfl
    omega
  refine ⟨?_, ?_, ?_, ?_⟩
  · intro h
    simp [h] at hlong
  · intro h
    simp [h] at hlong
  · intro h
    simp [h] at hlong
  · simp [hslash, hext.2.2.2]

theorem dot_mem_extend (x ext : String) : '.' ∈ (x ++ "." ++ ext).toList := by
  simp

theorem isPlain_of_mem_segments {n : ModuleName} {s : String} (hs : s ∈ n.segments)
    (hslash : '/' ∉ s.toList) : IsPlain s := by
  have hdot : '.' ∉ s.toList := not_mem_of_mem_split hs
  refine ⟨?_, ?_, ?_, hslash⟩
  · rintro rfl
    exact n.segments_ne hs
  · rintro rfl
    simp at hdot
  · rintro rfl
    simp at hdot

theorem segments_injective {m n : ModuleName} (h : m.segments = n.segments) : m = n := by
  apply ModuleName.ext
  rw [← m.join_segments, ← n.join_segments, h]

theorem baseName_mem_segments (n : ModuleName) : n.baseName ∈ n.segments :=
  List.getLast_mem _

theorem isPlain_baseName {n : ModuleName} (h : ∀ s ∈ n.segments, '/' ∉ s.toList) :
    IsPlain n.baseName :=
  isPlain_of_mem_segments (baseName_mem_segments n) (h _ (baseName_mem_segments n))

theorem relativeDir_eq {n : ModuleName} (h : ∀ s ∈ n.segments, IsPlain s) :
    n.relativeDir = ⟨.relative, n.segments⟩ := by
  have hfold : ∀ (segments : List String) (q : Path), (∀ s ∈ segments, IsPlain s) →
      segments.foldl Path.child q = ⟨q.root, q.parts ++ segments⟩ := by
    intro segments
    induction segments with
    | nil => simp
    | cons s segments ih =>
        intro q hplain
        rw [List.foldl_cons, child_of_isPlain (hplain s (by simp)),
          ih _ fun t ht => hplain t (by simp [ht])]
        simp
  exact hfold n.segments .here h

theorem stemChars_subset (cs : List Char) : Path.stemChars cs ⊆ cs := by
  unfold Path.stemChars
  have hdrop : cs.reverse.dropWhile (· ≠ '.') ⊆ cs.reverse :=
    (List.dropWhile_suffix _).subset
  simp only
  split
  · exact fun _ h => h
  · rename_i c before hbefore
    split
    · exact fun _ h => h
    · intro d hd
      have : d ∈ cs.reverse.dropWhile (· ≠ '.') := by
        rw [hbefore]
        exact List.mem_cons_of_mem c (List.mem_reverse.mp hd)
      exact List.mem_reverse.mp (hdrop this)

theorem stemChars_ne_nil {cs : List Char} (h : cs ≠ []) : Path.stemChars cs ≠ [] := by
  unfold Path.stemChars
  simp only
  split
  · exact h
  · split
    · exact h
    · rename_i hcase
      simp only [not_or] at hcase
      simpa using hcase.2

theorem stem_of_isComponent {name : String} (h : IsComponent name) :
    '/' ∉ (Path.stem name).toList ∧ Path.stem name ≠ "" := by
  obtain ⟨hslash, hne, _⟩ := isComponent_iff.mp h
  refine ⟨?_, ?_⟩
  · simp only [Path.stem, String.toList_ofList]
    exact fun hmem => hslash (stemChars_subset _ hmem)
  · simpa [Path.stem] using stemChars_ne_nil (show name.toList ≠ [] by simpa using hne)

/-- The path names a file of a directory, with a dot in its name. -/
def IsFileIn (directory q : Path) : Prop :=
  ∃ f, IsPlain f ∧ '.' ∈ f.toList ∧ q = ⟨directory.root, directory.parts ++ [f]⟩

section

variable {directory q : Path} {current : Location}

theorem placeFrom_snoc {f : String} (hf : IsPlain f) :
    placeFrom current ⟨directory.root, directory.parts ++ [f]⟩ =
      f :: placeFrom current directory := by
  simp [placeFrom, Path.normalize, components_of_isPlain hf]

theorem isStraight_snoc {f : String} (hf : IsPlain f) (hdirectory : IsStraight directory) :
    IsStraight ⟨directory.root, directory.parts ++ [f]⟩ := by
  unfold IsStraight at hdirectory ⊢
  simp only [Path.normalize, List.flatMap_append, List.flatMap_singleton, List.mem_append,
    components_of_isPlain hf, List.mem_singleton, not_or]
  exact ⟨hdirectory, fun h => hf.2.2.1 h.symm⟩

theorem IsFileIn.isStraight (h : IsFileIn directory q) (hdirectory : IsStraight directory) :
    IsStraight q := by
  obtain ⟨f, hf, _, rfl⟩ := h
  exact isStraight_snoc hf hdirectory

theorem IsFileIn.place (h : IsFileIn directory q) (current : Location) :
    ∃ f, '.' ∈ f.toList ∧ placeFrom current q = f :: placeFrom current directory := by
  obtain ⟨f, hf, hdot, rfl⟩ := h
  exact ⟨f, hdot, placeFrom_snoc hf⟩

theorem IsFileIn.parent (h : IsFileIn directory q) : q.normalize.parent = directory.normalize := by
  obtain ⟨f, hf, _, rfl⟩ := h
  simp [Path.normalize, Path.parent, components_of_isPlain hf]

theorem isFileIn_of_addExtension {x : String} {ext : Extension} (hslash : '/' ∉ x.toList)
    (hx : x ≠ "") (hext : IsPlain ext.text)
    (h : Path.addExtension ⟨directory.root, directory.parts ++ [x]⟩ ext = .ok q) :
    IsFileIn directory q := by
  obtain ⟨_, _, rfl⟩ := Path.withName_eq_ok_iff.mp h
  exact ⟨x ++ "." ++ ext.text, isPlain_extend hslash hx hext, dot_mem_extend _ _,
    by simp [Path.name?]⟩

end

theorem except_bind_eq_ok_iff {ε α β : Type} {x : Except ε α} {f : α → Except ε β} {b : β} :
    (x >>= f) = .ok b ↔ ∃ a, x = .ok a ∧ f a = .ok b := by
  cases x <;> simp [bind, Except.bind]

theorem mapError_eq_ok_iff {ε ε' α : Type} {x : Except ε α} {f : ε → ε'} {a : α} :
    x.mapError f = .ok a ↔ x = .ok a := by
  cases x <;> simp

theorem pairs_of_addExtensions {base : Path} {exts : List Extension}
    {found : OrderedMap Extension Path} (h : base.addExtensions exts = .ok found) :
    ∃ pairs, found = .ofList pairs ∧ pairs.map (·.1) = exts ∧
      ∀ x ∈ pairs, base.addExtension x.1 = .ok x.2 := by
  obtain ⟨pairs, hpairs, hfound⟩ := except_bind_eq_ok_iff.mp h
  cases hfound
  refine ⟨pairs, rfl, ?_⟩
  clear h
  induction exts generalizing pairs with
  | nil =>
      cases hpairs
      simp
  | cons e exts ih =>
      rw [List.mapM_cons, except_bind_eq_ok_iff] at hpairs
      obtain ⟨pair, hpair, hmore⟩ := hpairs
      obtain ⟨rest, hrest, hpairs⟩ := except_bind_eq_ok_iff.mp hmore
      cases hpairs
      obtain ⟨q, hq, hpair⟩ := except_bind_eq_ok_iff.mp hpair
      cases hpair
      obtain ⟨hkeys, hvariants⟩ := ih rest hrest
      exact ⟨by simp [hkeys], List.forall_mem_cons.mpr ⟨hq, hvariants⟩⟩

theorem get?_addExtensions {base : Path} {exts : List Extension}
    {found : OrderedMap Extension Path} (h : base.addExtensions exts = .ok found)
    (ext : Extension) : (∃ q, found.get? ext = some q) ↔ ext ∈ exts := by
  obtain ⟨pairs, rfl, rfl, _⟩ := pairs_of_addExtensions h
  constructor
  · rintro ⟨q, hq⟩
    have hmem := OrderedMap.mem_of_mem_ofList (OrderedMap.mem_of_get? hq)
    exact List.mem_map.mpr ⟨(ext, q), hmem, rfl⟩
  · intro hext
    obtain ⟨pair, hpair, rfl⟩ := List.mem_map.mp hext
    rw [OrderedMap.get?_ofList]
    cases hfind : pairs.reverse.find? fun x => x.1 == pair.1 with
    | some x => exact ⟨x.2, rfl⟩
    | none =>
        have hnone := List.find?_eq_none.mp hfind pair (List.mem_reverse.mpr hpair)
        simp at hnone

theorem get?_addExtensions_eq_some_iff {base q : Path} {exts : List Extension}
    {found : OrderedMap Extension Path} {ext : Extension}
    (h : base.addExtensions exts = .ok found) :
    found.get? ext = some q ↔ ext ∈ exts ∧ base.addExtension ext = .ok q := by
  obtain ⟨pairs, rfl, rfl, hvariants⟩ := pairs_of_addExtensions h
  have hvariant : ∀ r, (OrderedMap.ofList pairs).get? ext = some r →
      base.addExtension ext = .ok r := fun r hr =>
    hvariants (ext, r) (OrderedMap.mem_of_mem_ofList (OrderedMap.mem_of_get? hr))
  constructor
  · intro hq
    exact ⟨(get?_addExtensions h ext).mp ⟨q, hq⟩, hvariant q hq⟩
  · rintro ⟨hext, hq⟩
    obtain ⟨r, hr⟩ := (get?_addExtensions h ext).mpr hext
    rw [hvariant r hr] at hq
    cases hq
    exact hr

theorem addExtension_of_mem_addExtensions {base q : Path} {exts : List Extension}
    {found : OrderedMap Extension Path} (h : base.addExtensions exts = .ok found)
    (hq : q ∈ found.values) : ∃ ext ∈ exts, base.addExtension ext = .ok q := by
  obtain ⟨pairs, rfl, rfl, hvariants⟩ := pairs_of_addExtensions h
  obtain ⟨pair, hpair, rfl⟩ := List.mem_map.mp hq
  replace hpair := OrderedMap.mem_of_mem_ofList hpair
  exact ⟨pair.1, List.mem_map_of_mem hpair, hvariants pair hpair⟩

/-- Settings with which each output of a module is a file of the module's directory. -/
structure NamesFiles (config : Config) : Prop where
  extensions : ∀ ext ∈ config.companionExts, IsPlain ext.text
  mangle : '/' ∉ config.mangle.toList
  externs : IsPlain config.externsFile

/-- Settings whose parts each name one entry of a directory. -/
structure IsPlainConfig (config : Config) : Prop where
  extensions : ∀ ext ∈ config.companionExts, IsPlain ext.text
  mangle : IsPlain config.mangle
  externs : IsPlain config.externsFile
  externs_dot : '.' ∈ config.externsFile.toList
  support : IsPlain config.supportDir

theorem IsPlainConfig.namesFiles {config : Config} (h : IsPlainConfig config) :
    NamesFiles config :=
  ⟨h.extensions, h.mangle.2.2.2, h.externs⟩

def homeOf (p : Project) (n : ModuleName) : Path :=
  ⟨p.output.root, p.output.normalize.parts ++ n.segments⟩

section

variable {p : Project} {n : ModuleName}

/-- The outputs of a module as files of its home. -/
structure AreOutputs (p : Project) (n : ModuleName) (a : Artifacts) : Prop where
  implementation : Path.addExtension ⟨(homeOf p n).root, (homeOf p n).parts ++ [n.baseName]⟩
    p.config.implExt = .ok a.implementation
  header : Path.addExtension ⟨(homeOf p n).root, (homeOf p n).parts ++ [n.baseName]⟩
    p.config.headerExt = .ok a.header
  externs : a.externs = (homeOf p n).child p.config.externsFile
  foreignHeader : Path.addExtension
    ⟨(homeOf p n).root, (homeOf p n).parts ++ [n.baseName ++ p.config.mangle]⟩
    p.config.headerExt = .ok a.foreignHeader
  foreignImplementation : Path.addExtension
    ⟨(homeOf p n).root, (homeOf p n).parts ++ [n.baseName ++ p.config.mangle]⟩
    p.config.implExt = .ok a.foreignImplementation
  foreignOthers : Path.addExtensions
    ⟨(homeOf p n).root, (homeOf p n).parts ++ [n.baseName ++ p.config.mangle]⟩
    p.config.otherExts = .ok a.foreignOthers

theorem artifacts_eq_ok_iff {a : Artifacts} (hsegments : ∀ s ∈ n.segments, '/' ∉ s.toList) :
    p.artifacts n = .ok a ↔
      Path.isFileName (n.baseName ++ p.config.mangle) = true ∧ a.directory = homeOf p n ∧
        AreOutputs p n a := by
  have hplain : ∀ s ∈ n.segments, IsPlain s := fun s hs =>
    isPlain_of_mem_segments hs (hsegments s hs)
  have hdirectory : p.output.normalize ++ n.relativeDir = homeOf p n := by
    rw [relativeDir_eq hplain]
    rfl
  refine mapError_eq_ok_iff.trans ?_
  unfold Artifacts.ofModule
  simp only [hdirectory, child_of_isPlain (isPlain_baseName hsegments),
    except_bind_eq_ok_iff, Path.withName_eq_ok_iff, Path.name?, List.getLast?_append,
    List.getLast?_singleton, List.dropLast_concat]
  constructor
  · rintro ⟨_, ⟨_, hname, rfl⟩, implementation, hi, header, hh, foreignHeader, hfh,
      foreignImplementation, hfi, others, ho, ha⟩
    cases ha
    exact ⟨hname, rfl, hi, hh, rfl, hfh, hfi, ho⟩
  · rintro ⟨hname, hhome, hi, hh, hexterns, hfh, hfi, ho⟩
    refine ⟨_, ⟨by simp, hname, rfl⟩, _, hi, _, hh, _, hfh, _, hfi, _, ho, ?_⟩
    rw [← hexterns, ← hhome]
    rfl

theorem areOutputs_of_artifacts {a : Artifacts}
    (hsegments : ∀ s ∈ n.segments, '/' ∉ s.toList) (h : p.artifacts n = .ok a) :
    AreOutputs p n a :=
  ((artifacts_eq_ok_iff hsegments).mp h).2.2

/-- Every output of a module is a file of its home. But for the interface file its name
holds a dot. -/
theorem named_of_artifacts {a : Artifacts} (hconfig : NamesFiles p.config)
    (hsegments : ∀ s ∈ n.segments, '/' ∉ s.toList) (h : p.artifacts n = .ok a) :
    ∀ q ∈ a.all, ∃ f, IsPlain f ∧ ('.' ∈ f.toList ∨ f = p.config.externsFile) ∧
      q = ⟨(homeOf p n).root, (homeOf p n).parts ++ [f]⟩ := by
  have houtputs := areOutputs_of_artifacts hsegments h
  have hbase : IsPlain n.baseName := isPlain_baseName hsegments
  have himpl := hconfig.extensions p.config.implExt (by simp [Config.companionExts])
  have hheader := hconfig.extensions p.config.headerExt (by simp [Config.companionExts])
  have hmangled : '/' ∉ (n.baseName ++ p.config.mangle).toList := by
    simp [hbase.2.2.2, hconfig.mangle]
  have hmangled_ne : n.baseName ++ p.config.mangle ≠ "" := by
    simp [hbase.1]
  have hdotted : ∀ q, IsFileIn (homeOf p n) q →
      ∃ f, IsPlain f ∧ ('.' ∈ f.toList ∨ f = p.config.externsFile) ∧
        q = ⟨(homeOf p n).root, (homeOf p n).parts ++ [f]⟩ := by
    rintro q ⟨f, hf, hdot, hq⟩
    exact ⟨f, hf, .inl hdot, hq⟩
  intro q hq
  simp only [Artifacts.all, Artifacts.primary, List.mem_append, List.mem_cons,
    List.not_mem_nil, or_false] at hq
  rcases hq with (rfl | rfl | rfl) | rfl | rfl | hq
  · exact hdotted _ (isFileIn_of_addExtension hbase.2.2.2 hbase.1 himpl houtputs.implementation)
  · exact hdotted _ (isFileIn_of_addExtension hbase.2.2.2 hbase.1 hheader houtputs.header)
  · exact ⟨p.config.externsFile, hconfig.externs, .inr rfl,
      houtputs.externs.trans (child_of_isPlain hconfig.externs)⟩
  · exact hdotted _ (isFileIn_of_addExtension hmangled hmangled_ne hheader
      houtputs.foreignHeader)
  · exact hdotted _ (isFileIn_of_addExtension hmangled hmangled_ne himpl
      houtputs.foreignImplementation)
  · obtain ⟨ext, hext, hadd⟩ := addExtension_of_mem_addExtensions houtputs.foreignOthers hq
    have hext' := hconfig.extensions ext (by simp [Config.companionExts, hext])
    exact hdotted _ (isFileIn_of_addExtension hmangled hmangled_ne hext' hadd)

theorem isFileIn_of_artifacts {a : Artifacts} (hconfig : IsPlainConfig p.config)
    (hsegments : ∀ s ∈ n.segments, '/' ∉ s.toList) (h : p.artifacts n = .ok a) :
    ∀ q ∈ a.all, IsFileIn (homeOf p n) q := by
  intro q hq
  obtain ⟨f, hf, hdot, heq⟩ := named_of_artifacts hconfig.namesFiles hsegments h q hq
  refine ⟨f, hf, ?_, heq⟩
  rcases hdot with hdot | rfl
  · exact hdot
  · exact hconfig.externs_dot

theorem parts_ne_nil_of_companions {source : Path} {config : Config}
    {found : OrderedMap Extension Path} (h : companions source config = .ok found) :
    source.normalize.parts ≠ [] := by
  obtain ⟨base, hbase, _⟩ := except_bind_eq_ok_iff.mp h
  intro hnil
  simp [Path.withoutExtension, Path.name?, hnil] at hbase

theorem isFileIn_of_companions {source : Path} {found : OrderedMap Extension Path}
    (hextensions : ∀ ext ∈ p.config.companionExts, IsPlain ext.text)
    (h : companions source p.config = .ok found) :
    ∀ q ∈ found.values, IsFileIn source.normalize.parent q := by
  obtain ⟨base, hbase, hfound⟩ := except_bind_eq_ok_iff.mp h
  unfold Path.withoutExtension at hbase
  split at hbase
  · cases hbase
  · rename_i name hname
    cases hbase
    obtain ⟨hslash, hne⟩ := stem_of_isComponent
      (isNormal_normalize source name (List.mem_of_getLast? hname))
    intro q hq
    obtain ⟨ext, hext, hadd⟩ := addExtension_of_mem_addExtensions hfound hq
    exact isFileIn_of_addExtension hslash hne (hextensions ext hext) hadd

end

/-- Module names, settings and paths for which the modules of a build keep out of each
other's way, seen from the current directory. -/
structure IsLaidOut (p : Project) (names : List ModuleName) (current : Location) : Prop where
  config : IsPlainConfig p.config
  segments : ∀ n ∈ names, ∀ s ∈ n.segments, '/' ∉ s.toList
  support : ∀ n ∈ names, n.segments.head? ≠ some p.config.supportDir
  output : IsStraight p.output
  sources : ∀ n ∈ names, ∀ source, p.modules.locate n = .ok (.file source) →
    IsStraight source ∧ ¬ placeFrom current p.output <:+ placeFrom current source

def home (p : Project) (current : Location) (n : ModuleName) : Location :=
  n.segments.reverse ++ placeFrom current p.output

def supportHome (p : Project) (current : Location) : Location :=
  p.config.supportDir :: placeFrom current p.output

/-- The place of a file in a module's home whose name holds a dot. -/
def IsOutput (p : Project) (current : Location) (n : ModuleName) (l : Location) : Prop :=
  ∃ f : String, '.' ∈ f.toList ∧ l = f :: home p current n

/-- The place of a support file. -/
def IsPayload (p : Project) (current : Location) (l : Location) : Prop :=
  ∃ file ∈ Support.payloads, l = file.1 :: supportHome p current

/-- The places of files that a rebuild of the module may write. -/
def Writes (p : Project) (current : Location) (n : ModuleName) (l : Location) : Prop :=
  IsOutput p current n l ∨ IsPayload p current l

/-- The places of directories that a rebuild of the module may make. -/
def Makes (p : Project) (current : Location) (n : ModuleName) (l : Location) : Prop :=
  l <:+ home p current n ∨ l <:+ supportHome p current

section

variable {p : Project} {names : List ModuleName} {current : Location} {m n : ModuleName}

theorem normalize_homeOf (hsegments : ∀ s ∈ n.segments, IsPlain s) :
    (homeOf p n).normalize = homeOf p n := by
  apply normalize_eq_self
  intro part hpart
  rcases List.mem_append.mp hpart with hpart | hpart
  · exact isNormal_normalize p.output part hpart
  · exact components_of_isPlain (hsegments part hpart)

theorem placeFrom_homeOf (hsegments : ∀ s ∈ n.segments, IsPlain s) :
    placeFrom current (homeOf p n) = home p current n := by
  unfold placeFrom home
  rw [normalize_homeOf hsegments]
  simp [homeOf, placeFrom]

theorem isStraight_homeOf (hsegments : ∀ s ∈ n.segments, IsPlain s)
    (houtput : IsStraight p.output) : IsStraight (homeOf p n) := by
  unfold IsStraight
  rw [normalize_homeOf hsegments]
  simp only [homeOf, List.mem_append, not_or]
  exact ⟨houtput, fun hup => (hsegments _ hup).2.2.1 rfl⟩

theorem home_injective (h : home p current m = home p current n) : m = n := by
  apply segments_injective
  exact List.reverse_inj.mp (List.append_cancel_right h)

theorem IsLaidOut.isPlain_of_segments (h : IsLaidOut p names current) (hn : n ∈ names) :
    ∀ s ∈ n.segments, IsPlain s :=
  fun s hs => isPlain_of_mem_segments hs (h.segments n hn s hs)

theorem IsLaidOut.place_of_artifacts (h : IsLaidOut p names current) (hn : n ∈ names)
    {a : Artifacts} (ha : p.artifacts n = .ok a) {q : Path} (hq : q ∈ a.all) :
    IsStraight q ∧ placeFrom current q.normalize.parent = home p current n ∧
      ∃ f, '.' ∈ f.toList ∧ placeFrom current q = f :: home p current n := by
  have hplain := h.isPlain_of_segments hn
  have hfile := isFileIn_of_artifacts h.config (h.segments n hn) ha q hq
  obtain ⟨f, hdot, hplace⟩ := hfile.place current
  rw [placeFrom_homeOf hplain] at hplace
  refine ⟨hfile.isStraight (isStraight_homeOf hplain h.output), ?_, f, hdot, hplace⟩
  rw [hfile.parent, placeFrom_normalize, placeFrom_homeOf hplain]

def supportPath (p : Project) : Path :=
  p.output.normalize.child p.config.supportDir

theorem place_of_supportPath (hsupport : IsPlain p.config.supportDir)
    (houtput : IsStraight p.output) :
    IsStraight (supportPath p) ∧ placeFrom current (supportPath p) = supportHome p current := by
  have heq : supportPath p =
      ⟨p.output.normalize.root, p.output.normalize.parts ++ [p.config.supportDir]⟩ :=
    child_of_isPlain hsupport
  rw [heq]
  refine ⟨isStraight_snoc hsupport (isStraight_normalize.mpr houtput), ?_⟩
  rw [placeFrom_snoc hsupport, placeFrom_normalize]
  rfl

theorem IsLaidOut.place_of_support (h : IsLaidOut p names current) :
    IsStraight (supportPath p) ∧ placeFrom current (supportPath p) = supportHome p current :=
  place_of_supportPath h.config.support h.output

theorem parent_of_payload (p : Project) {file : String × Content}
    (hfile : file ∈ Support.payloads) :
    ((supportPath p).child file.1).normalize.parent = (supportPath p).normalize :=
  parent_child_of_isPlain (plain_of_mem_payloads hfile)

theorem isStraight_payload (hsupport : IsStraight (supportPath p)) {file : String × Content}
    (hfile : file ∈ Support.payloads) : IsStraight ((supportPath p).child file.1) := by
  rw [child_of_isPlain (plain_of_mem_payloads hfile)]
  exact isStraight_snoc (plain_of_mem_payloads hfile) hsupport

theorem IsLaidOut.place_of_payloads (h : IsLaidOut p names current) {file : String × Content}
    (hfile : file ∈ Support.payloads) :
    IsStraight ((supportPath p).child file.1) ∧
      placeFrom current ((supportPath p).child file.1).normalize.parent =
        supportHome p current ∧
      placeFrom current ((supportPath p).child file.1) = file.1 :: supportHome p current := by
  have hplain := plain_of_mem_payloads hfile
  obtain ⟨hstraight, hplace⟩ := h.place_of_support
  refine ⟨isStraight_payload hstraight hfile, ?_, ?_⟩
  · rw [parent_of_payload p hfile, placeFrom_normalize, hplace]
  · rw [child_of_isPlain hplain, placeFrom_snoc hplain, hplace]

theorem IsLaidOut.admits_of_artifacts (h : IsLaidOut p names current) (hn : n ∈ names)
    {a : Artifacts} (ha : p.artifacts n = .ok a) {q : Path} (hq : q ∈ a.all) :
    Admits current (· <:+ home p current n) (IsOutput p current n) q := by
  obtain ⟨hstraight, hparent, hplace⟩ := h.place_of_artifacts hn ha hq
  apply admits_of_straight hstraight hplace
  rw [hparent]
  exact fun l hl => hl

theorem IsLaidOut.admits_of_payloads (h : IsLaidOut p names current)
    {file : String × Content} (hfile : file ∈ Support.payloads) :
    Admits current (· <:+ supportHome p current) (IsPayload p current)
      ((supportPath p).child file.1) := by
  obtain ⟨hstraight, hparent, hplace⟩ := h.place_of_payloads hfile
  apply admits_of_straight hstraight ⟨file, hfile, hplace⟩
  rw [hparent]
  exact fun l hl => hl

/-- A rebuild of a module stays in its home and among the support files. -/
theorem IsLaidOut.within_persist (h : IsLaidOut p names current) {c : CompiledModule}
    (hn : c.name ∈ names) (environment : Value) (externs : Content) :
    Within current (Makes p current c.name) (Writes p current c.name)
      (p.persist c environment externs) :=
  Steps.within_persist environment externs
    (fun _ ha _ hq => (h.admits_of_artifacts hn ha hq).mono (fun _ => .inl) fun _ => .inl)
    fun _ hfile => (h.admits_of_payloads hfile).mono (fun _ => .inr) fun _ => .inr

theorem output_suffix_home (p : Project) (current : Location) (n : ModuleName) :
    placeFrom current p.output <:+ home p current n :=
  List.suffix_append _ _

end

end Rebuild.Proofs.Layout
