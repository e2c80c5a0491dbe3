import Rebuild.Output
import Rebuild.Proofs.Directories

/-!
Steps of a build as moves of its workspace. Whatever its outcome, a step leaves
the clock alone, only adds to the tree and to what was printed, and writes only
where the paths it is given lead.
-/

namespace Rebuild.Proofs.Steps

open Rebuild.FileTree
open Rebuild.Proofs.PathNormal
open Rebuild.Proofs.Lookup
open Rebuild.Proofs.Growth
open Rebuild.Proofs.TreeCalls
open Rebuild.Proofs.Directories

theorem bind_eq_ok_iff {α β : Type} {x : BuildM α} {f : α → BuildM β} {w w' : Workspace}
    {b : β} :
    (x >>= f) w = .ok b w' ↔ ∃ a u, x w = .ok a u ∧ f a u = .ok b w' := by
  show EStateM.bind x f w = _ ↔ _
  unfold EStateM.bind
  cases x w <;> simp [and_assoc]

theorem bind_eq_error_iff {α β : Type} {x : BuildM α} {f : α → BuildM β} {w w' : Workspace}
    {e : BuildError} :
    (x >>= f) w = .error e w' ↔
      x w = .error e w' ∨ ∃ a u, x w = .ok a u ∧ f a u = .error e w' := by
  show EStateM.bind x f w = _ ↔ _
  unfold EStateM.bind
  cases x w <;> simp [and_assoc]

theorem bind_of_ok {α β : Type} {x : BuildM α} {f : α → BuildM β} {w u : Workspace} {a : α}
    (h : x w = .ok a u) : (x >>= f) w = f a u := by
  show EStateM.bind x f w = _
  simp [EStateM.bind, h]

theorem bind_of_error {α β : Type} {x : BuildM α} {f : α → BuildM β} {w u : Workspace}
    {e : BuildError} (h : x w = .error e u) : (x >>= f) w = .error e u := by
  show EStateM.bind x f w = _
  simp [EStateM.bind, h]

@[simp] theorem pure_apply {α : Type} (a : α) (w : Workspace) :
    (pure a : BuildM α) w = .ok a w :=
  rfl

@[simp] theorem throw_apply {α : Type} (e : BuildError) (w : Workspace) :
    (throw e : BuildM α) w = .error e w :=
  rfl

@[simp] theorem get_apply (w : Workspace) : (get : BuildM Workspace) w = .ok w w :=
  rfl

@[simp] theorem lift_ok_apply {α : Type} (a : α) (w : Workspace) :
    (monadLift (Except.ok a : Except BuildError α) : BuildM α) w = .ok a w :=
  rfl

@[simp] theorem lift_error_apply {α : Type} (e : BuildError) (w : Workspace) :
    (monadLift (Except.error e : Except BuildError α) : BuildM α) w = .error e w :=
  rfl

theorem lift_eq_ok_iff {α : Type} {x : Except BuildError α} {a : α} {w w' : Workspace} :
    (monadLift x : BuildM α) w = .ok a w' ↔ x = .ok a ∧ w' = w := by
  cases x <;> simp [eq_comm]

theorem tryCatch_apply {α : Type} (x : BuildM α) (handle : BuildError → BuildM α)
    (w : Workspace) :
    (tryCatch x handle : BuildM α) w =
      match x w with
      | .ok a w' => .ok a w'
      | .error e w' => handle e w' := by
  show EStateM.tryCatch x handle w = _
  unfold EStateM.tryCatch
  cases x w <;> rfl

/-- The workspace that a step leaves behind, whatever its outcome. -/
def after {α : Type} (x : BuildM α) (w : Workspace) : Workspace :=
  match x w with
  | .ok _ w' => w'
  | .error _ w' => w'

theorem after_of_ok {α : Type} {x : BuildM α} {w w' : Workspace} {a : α}
    (h : x w = .ok a w') : after x w = w' := by
  simp [after, h]

theorem after_of_error {α : Type} {x : BuildM α} {w w' : Workspace} {e : BuildError}
    (h : x w = .error e w') : after x w = w' := by
  simp [after, h]

theorem after_bind_of_ok {α β : Type} {x : BuildM α} {f : α → BuildM β} {w u : Workspace}
    {a : α} (h : x w = .ok a u) : after (x >>= f) w = after (f a) u := by
  unfold after
  rw [bind_of_ok h]

theorem after_bind_of_error {α β : Type} {x : BuildM α} {f : α → BuildM β} {w u : Workspace}
    {e : BuildError} (h : x w = .error e u) : after (x >>= f) w = u :=
  after_of_error (bind_of_error h)

def returns {α : Type} [DecidableEq α] (x : BuildM α) (w : Workspace) (a : α) : Bool :=
  match x w with
  | .ok b _ => b = a
  | .error _ _ => false

theorem returns_iff {α : Type} [DecidableEq α] {x : BuildM α} {w : Workspace} {a : α} :
    returns x w a = true ↔ x w = .ok a (after x w) := by
  unfold returns after
  cases x w <;> simp

def fails {α : Type} (x : BuildM α) (w : Workspace) : Bool :=
  match x w with
  | .ok _ _ => false
  | .error _ _ => true

theorem fails_iff {α : Type} {x : BuildM α} {w : Workspace} :
    fails x w = true ↔ ∃ e, x w = .error e (after x w) := by
  unfold fails after
  cases x w <;> simp

def answers {α : Type} [DecidableEq α] (x : Except BuildError α) (a : α) : Bool :=
  match x with
  | .ok b => b = a
  | .error _ => false

theorem answers_iff {α : Type} [DecidableEq α] {x : Except BuildError α} {a : α} :
    answers x a = true ↔ x = .ok a := by
  cases x <;> simp [answers]

def primaryFiles (a : Artifacts) (texts : CodeText × CodeText) (externs : Content) :
    List (Path × Content) :=
  [(a.implementation, .text texts.2), (a.header, .text texts.1), (a.externs, externs)]

theorem map_primaryFiles (a : Artifacts) (texts : CodeText × CodeText) (externs : Content) :
    (primaryFiles a texts externs).map (·.1) = a.primary :=
  rfl

theorem primary_of_mem_primaryFiles {a : Artifacts} {texts : CodeText × CodeText}
    {externs : Content} {file : Path × Content} (h : file ∈ primaryFiles a texts externs) : file.1 ∈ a.primary := by
  rw [← map_primaryFiles a texts externs]
  exact List.mem_map_of_mem h

theorem all_of_mem_primary {a : Artifacts} {q : Path} (h : q ∈ a.primary) : q ∈ a.all :=
  List.mem_append_left _ h

def foreignPaths (a : Artifacts) : List Path :=
  a.foreignHeader :: a.foreignImplementation :: a.foreignOthers.values

theorem all_of_mem_foreignPaths {a : Artifacts} {q : Path} (h : q ∈ foreignPaths a) :
    q ∈ a.all :=
  List.mem_append_right _ h

section

variable {p : Project} {m : CompiledModule} {environment : Value} {externs : Content}

/-- What has to be known of a module before any of its files is written. -/
def Planned (p : Project) (m : CompiledModule) (environment : Value) (externs : Content)
    (a : Artifacts) (texts : CodeText × CodeText) : Prop :=
  externs.isExterns = true ∧ p.artifacts m.name = .ok a ∧
    renderModule p.render p.config m environment = .ok texts

theorem writePrimary_apply {a : Artifacts} {texts : CodeText × CodeText}
    (h : Planned p m environment externs a texts) (w : Workspace) :
    p.writePrimary m environment externs w =
      match tryWriteAll (primaryFiles a texts externs) w with
      | .ok [] w' => .ok a w'
      | .ok (first :: rest) w' => .error (.write first rest) w'
      | .error e w' => .error e w' := by
  obtain ⟨hexterns, ha, hrender⟩ := h
  obtain ⟨header, implementation⟩ := texts
  unfold Project.writePrimary
  simp only [hexterns, ha, hrender]
  show ((tryWriteAll (primaryFiles a (header, implementation) externs) >>= _ :
    BuildM Artifacts)) w = _
  cases hall : tryWriteAll (primaryFiles a (header, implementation) externs) w with
  | error e u => exact bind_of_error hall
  | ok failures u =>
      rw [bind_of_ok hall]
      cases failures <;> rfl

theorem writePrimary_unplanned (h : ∀ a texts, ¬ Planned p m environment externs a texts)
    (w : Workspace) : ∃ e, p.writePrimary m environment externs w = .error e w := by
  unfold Project.writePrimary
  by_cases hexterns : externs.isExterns = true
  · cases ha : p.artifacts m.name with
    | error e => exact ⟨e, by simp only [hexterns]; rfl⟩
    | ok a =>
        cases hrender : renderModule p.render p.config m environment with
        | error e => exact ⟨e, by simp only [hexterns]; rfl⟩
        | ok texts => exact absurd ⟨hexterns, ha, hrender⟩ (h a texts)
  · exact ⟨_, by simp only [hexterns]; rfl⟩

theorem writePrimary_eq_ok_iff {w w' : Workspace} {a : Artifacts} :
    p.writePrimary m environment externs w = .ok a w' ↔
      ∃ texts, Planned p m environment externs a texts ∧
        tryWriteAll (primaryFiles a texts externs) w = .ok [] w' := by
  constructor
  · intro h
    by_cases hplan : ∃ b texts, Planned p m environment externs b texts
    · obtain ⟨b, texts, hplan⟩ := hplan
      rw [writePrimary_apply hplan] at h
      split at h
      · rename_i w'' hall
        cases h
        exact ⟨texts, hplan, hall⟩
      · cases h
      · cases h
    · obtain ⟨e, he⟩ := writePrimary_unplanned
        (fun b texts hb => hplan ⟨b, texts, hb⟩) w
      simp [h] at he
  · rintro ⟨texts, hplan, hall⟩
    rw [writePrimary_apply hplan, hall]

/-- Where the primary files could not be written, none was tried or one of them was
refused. -/
theorem writePrimary_error {w w' : Workspace} {e : BuildError}
    (h : p.writePrimary m environment externs w = .error e w') :
    w' = w ∨ ∃ a texts, Planned p m environment externs a texts ∧
      after (tryWriteAll (primaryFiles a texts externs)) w = w' ∧
      ∀ u, tryWriteAll (primaryFiles a texts externs) w ≠ .ok [] u := by
  by_cases hplan : ∃ a texts, Planned p m environment externs a texts
  · obtain ⟨a, texts, hplan⟩ := hplan
    rw [writePrimary_apply hplan] at h
    unfold after
    split at h
    · cases h
    · rename_i first rest u hall
      cases h
      exact .inr ⟨a, texts, hplan, by simp [hall], by simp [hall]⟩
    · rename_i e' u hall
      cases h
      exact .inr ⟨a, texts, hplan, by simp [hall], by simp [hall]⟩
  · obtain ⟨e', he'⟩ := writePrimary_unplanned
      (fun a texts ha => hplan ⟨a, texts, ha⟩) w
    rw [h] at he'
    cases he'
    exact .inl rfl

end

def announces (line : String) : Bool :=
  "Compiling ".toList.isPrefixOf line.toList

/-- A step led from one workspace to another: new directories came at places of `D`,
files were written at places of `W`, and no line that was printed announces a module. -/
structure Moves (D W : Location → Prop) (w w' : Workspace) : Prop where
  now : w'.now = w.now
  files : Evolves w.now D W w.files w'.files
  printed : ∃ lines, w'.printed = w.printed ++ lines ∧ ∀ line ∈ lines, announces line = false

/-- Started in a tree with the given current directory, the step moves its workspace
within `D` and `W`. -/
def Within {α : Type} (current : Location) (D W : Location → Prop) (x : BuildM α) : Prop :=
  ∀ w : Workspace, w.files.current = current → Moves D W w (after x w)

/-- Wherever the path leads is a place of `W`, and wherever its prefixes lead is a place
of `D`. -/
structure Admits (current : Location) (D W : Location → Prop) (p : Path) : Prop where
  target : ∀ (t : FileTree) l, t.current = current → t.resolve p = .ok l → W l
  parents : ∀ (t : FileTree) names l, t.current = current →
    names <+: p.normalize.parts.dropLast → t.resolve ⟨p.root, names⟩ = .ok l → D l

theorem admits_top (current : Location) (p : Path) :
    Admits current (fun _ => True) (fun _ => True) p :=
  ⟨fun _ _ _ _ => trivial, fun _ _ _ _ _ _ => trivial⟩

theorem Admits.mono {current : Location} {D W D' W' : Location → Prop} {p : Path}
    (h : Admits current D W p) (hD : ∀ l, D l → D' l) (hW : ∀ l, W l → W' l) :
    Admits current D' W' p :=
  ⟨fun t l ht hl => hW l (h.target t l ht hl),
    fun t names l ht hnames hl => hD l (h.parents t names l ht hnames hl)⟩

/-- A directory above the end of a path, on the way that its components lead. -/
def IsOnWay (current : Location) (p : Path) (l : Location) : Prop :=
  ∃ names, names <+: p.normalize.parts.dropLast ∧ l = endOf current ⟨p.root, names⟩

theorem admits_endOf (current : Location) (p : Path) :
    Admits current (IsOnWay current p) (· = endOf current p) p := by
  constructor
  · rintro t l rfl hl
    exact resolve_eq_endOf hl
  · rintro t names l rfl hnames hl
    exact ⟨names, hnames, resolve_eq_endOf hl⟩

theorem isOnWay_straight {current : Location} {p : Path} (hp : IsStraight p) {l : Location}
    (h : IsOnWay current p l) : l <:+ placeFrom current p.normalize.parent := by
  obtain ⟨names, hnames, rfl⟩ := h
  have hsub : ∀ part ∈ names, part ∈ p.normalize.parts := fun part hpart =>
    List.dropLast_subset _ (hnames.subset hpart)
  have hnormal : (⟨p.root, names⟩ : Path).normalize = ⟨p.root, names⟩ :=
    normalize_eq_self (isNormal_of_subset (isNormal_normalize p) hsub)
  have hstraight : IsStraight ⟨p.root, names⟩ := by
    unfold IsStraight
    rw [hnormal]
    exact fun hup => hp (hsub _ hup)
  rw [endOf_straight current hstraight]
  unfold placeFrom
  rw [hnormal, normalize_parent_normalize]
  obtain ⟨rest, hrest⟩ := hnames
  refine ⟨rest.reverse, ?_⟩
  rw [← List.append_assoc, ← List.reverse_append, hrest]
  rfl

theorem admits_of_straight {current : Location} {D W : Location → Prop} {p : Path}
    (hp : IsStraight p) (hW : W (placeFrom current p))
    (hD : ∀ l, l <:+ placeFrom current p.normalize.parent → D l) :
    Admits current D W p := by
  refine (admits_endOf current p).mono (fun l hl => hD l (isOnWay_straight hp hl)) ?_
  rintro l rfl
  rw [endOf_straight current hp]
  exact hW

def Ends (current : Location) (paths : List Path) (l : Location) : Prop :=
  ∃ q ∈ paths, l = endOf current q

def OnWays (current : Location) (paths : List Path) (l : Location) : Prop :=
  ∃ q ∈ paths, IsOnWay current q l

theorem admits_ends (current : Location) {paths : List Path} {q : Path} (hq : q ∈ paths) :
    Admits current (OnWays current paths) (Ends current paths) q :=
  (admits_endOf current q).mono (fun _ hl => ⟨q, hq, hl⟩) fun _ hl => ⟨q, hq, hl⟩

section

variable {current : Location} {D W : Location → Prop} {α β : Type}

theorem Moves.refl (w : Workspace) : Moves D W w w :=
  ⟨rfl, Evolves.refl w.files, [], by simp⟩

theorem Moves.trans {u v w : Workspace} (h : Moves D W u v) (h' : Moves D W v w) :
    Moves D W u w := by
  obtain ⟨lines, hlines, hsilent⟩ := h.printed
  obtain ⟨lines', hlines', hsilent'⟩ := h'.printed
  refine ⟨h'.now.trans h.now, h.files.trans (h.now ▸ h'.files), lines ++ lines', ?_, ?_⟩
  · rw [hlines', hlines, List.append_assoc]
  · intro line hline
    rcases List.mem_append.mp hline with hline | hline
    · exact hsilent line hline
    · exact hsilent' line hline

theorem moves_of_files {w : Workspace} {files : FileTree}
    (h : Evolves w.now D W w.files files) : Moves D W w { w with files } :=
  ⟨rfl, h, [], by simp⟩

theorem Within.of_ok {x : BuildM α} (hx : Within current D W x) {w w' : Workspace} {a : α}
    (hw : w.files.current = current) (h : x w = .ok a w') : Moves D W w w' :=
  after_of_ok h ▸ hx w hw

theorem Within.of_error {x : BuildM α} (hx : Within current D W x) {w w' : Workspace}
    {e : BuildError} (hw : w.files.current = current) (h : x w = .error e w') :
    Moves D W w w' :=
  after_of_error h ▸ hx w hw

theorem within_pure (a : α) : Within current D W (pure a : BuildM α) :=
  fun w _ => Moves.refl w

theorem within_throw (e : BuildError) : Within current D W (throw e : BuildM α) :=
  fun w _ => Moves.refl w

theorem within_get : Within current D W (get : BuildM Workspace) :=
  fun w _ => Moves.refl w

theorem within_lift (x : Except BuildError α) :
    Within current D W (monadLift x : BuildM α) := by
  cases x with
  | ok a => exact within_pure a
  | error e => exact within_throw e

theorem within_bind_result {x : BuildM α} {f : α → BuildM β} (hx : Within current D W x)
    (hf : ∀ a u v, x u = .ok a v → Within current D W (f a)) :
    Within current D W (x >>= f) := by
  intro w hw
  cases h : x w with
  | error e u =>
      rw [after_bind_of_error h]
      exact hx.of_error hw h
  | ok a u =>
      have hu := hx.of_ok hw h
      have hrest := hf a w u h u (hu.files.current.trans hw)
      rw [after_bind_of_ok h]
      exact hu.trans hrest

theorem within_bind {x : BuildM α} {f : α → BuildM β} (hx : Within current D W x)
    (hf : ∀ a, Within current D W (f a)) : Within current D W (x >>= f) :=
  within_bind_result hx fun a _ _ _ => hf a

theorem within_throw_bind (e : BuildError) (f : α → BuildM β) :
    Within current D W ((throw e : BuildM α) >>= f) :=
  fun w _ => Moves.refl w

theorem within_bind_lift {x : Except BuildError α} {f : α → BuildM β}
    (hf : ∀ a, x = .ok a → Within current D W (f a)) :
    Within current D W ((monadLift x : BuildM α) >>= f) := by
  cases x with
  | ok a => exact hf a rfl
  | error e => exact within_throw e

theorem within_tryCatch {x : BuildM α} {handle : BuildError → BuildM α}
    (hx : Within current D W x) (hhandle : ∀ e, Within current D W (handle e)) :
    Within current D W (tryCatch x handle) := by
  intro w hw
  cases h : x w with
  | ok a u =>
      have hafter : after (tryCatch x handle) w = u :=
        after_of_ok (by rw [tryCatch_apply, h])
      exact hafter ▸ hx.of_ok hw h
  | error e u =>
      have hu := hx.of_error hw h
      have hafter : after (tryCatch x handle) w = after (handle e) u := by
        unfold after
        rw [tryCatch_apply, h]
      exact hafter ▸ hu.trans (hhandle e u (hu.files.current.trans hw))

theorem within_printLine {line : String} (h : announces line = false) :
    Within current D W (printLine line) :=
  fun w _ => ⟨rfl, Evolves.refl w.files, [line], rfl, by simpa using h⟩

theorem makeParents_apply (p : Path) (w : Workspace) :
    makeParents p w =
      match w.files.makeDirs p.normalize.parent with
      | (files, .ok ()) => .ok () { w with files }
      | (files, .error fault) => .error (.ofWrite p fault) { w with files } := by
  unfold makeParents
  rw [bind_of_ok (get_apply w)]
  rcases w.files.makeDirs p.normalize.parent with ⟨files, _ | _⟩ <;> rfl

theorem putBytes_apply (p : Path) (content : ByteArray) (w : Workspace) :
    putBytes p content w =
      match w.files.write p content w.now with
      | .ok files => .ok () { w with files }
      | .error fault => .error (.ofWrite p fault) w := by
  unfold putBytes
  rw [bind_of_ok (get_apply w)]
  cases w.files.write p content w.now <;> rfl

def putCopy (source target : Path) : BuildM Path := do
  let w ← get
  match w.files.copy source target w.now with
  | .ok files =>
    set { w with files }
    return target.normalize
  | .error fault => throw (.ofWrite target fault)

theorem copyFile_eq (source target : Path) :
    copyFile source target = makeParents target >>= fun _ => putCopy source target :=
  rfl

theorem putCopy_apply (source target : Path) (w : Workspace) :
    putCopy source target w =
      match w.files.copy source target w.now with
      | .ok files => .ok target.normalize { w with files }
      | .error fault => .error (.ofWrite target fault) w := by
  unfold putCopy
  rw [bind_of_ok (get_apply w)]
  cases w.files.copy source target w.now <;> rfl

theorem within_makeParents {p : Path} (h : ∀ (t : FileTree) names l, t.current = current →
    names <+: p.normalize.parts.dropLast → t.resolve ⟨p.root, names⟩ = .ok l → D l) :
    Within current D W (makeParents p) := by
  intro w hw
  have hfiles : Evolves w.now D W w.files (w.files.makeDirs p.normalize.parent).1 := by
    apply evolves_makeDirs
    intro u names l hu hnames hl
    rw [normalize_parent_normalize] at hnames
    exact h u names l (hu.trans hw) hnames hl
  unfold after
  rw [makeParents_apply]
  rcases hmake : w.files.makeDirs p.normalize.parent with ⟨files, _ | _⟩ <;>
    exact moves_of_files (by simpa [hmake] using hfiles)

theorem within_makeParents_onWay (current : Location) (p : Path) :
    Within current (IsOnWay current p) (fun _ => False) (makeParents p) :=
  within_makeParents (admits_endOf current p).parents

theorem within_putBytes {p : Path} (content : ByteArray) (h : Admits current D W p) :
    Within current D W (putBytes p content) := by
  intro w hw
  unfold after
  rw [putBytes_apply]
  cases hwrite : w.files.write p content w.now with
  | ok files =>
      exact moves_of_files (evolves_of_placeAt hwrite fun l => h.target w.files l hw)
  | error fault => exact Moves.refl w

theorem within_writeBytes {p : Path} (content : ByteArray) (h : Admits current D W p) :
    Within current D W (writeBytes p content) :=
  within_bind (within_makeParents h.parents) fun _ =>
    within_bind (within_putBytes content h) fun _ => within_pure _

theorem within_writeFile {p : Path} (v : Content) (h : Admits current D W p) :
    Within current D W (writeFile p v) := by
  unfold writeFile
  split
  · exact within_throw _
  · exact within_writeBytes _ h

theorem within_putCopy (source : Path) {target : Path} (h : Admits current D W target) :
    Within current D W (putCopy source target) := by
  intro w hw
  unfold after
  rw [putCopy_apply]
  cases hcopy : w.files.copy source target w.now with
  | ok files =>
      obtain ⟨content, _, hwrite⟩ := copy_eq_ok hcopy
      exact moves_of_files (evolves_of_placeAt hwrite fun l => h.target w.files l hw)
  | error fault => exact Moves.refl w

theorem within_copyFile (source : Path) {target : Path} (h : Admits current D W target) :
    Within current D W (copyFile source target) := by
  rw [copyFile_eq]
  exact within_bind (within_makeParents h.parents) fun _ => within_putCopy source h

theorem within_tryWrite {p : Path} (v : Content) (h : Admits current D W p) :
    Within current D W (tryWrite p v) := by
  unfold tryWrite
  apply within_tryCatch
  · exact within_bind (within_writeFile v h) fun _ => within_pure _
  · intro e
    split
    · exact within_pure _
    · exact within_throw _

theorem within_tryWriteAll (files : List (Path × Content))
    (h : ∀ file ∈ files, Admits current D W file.1) :
    Within current D W (tryWriteAll files) := by
  induction files with
  | nil => exact within_pure _
  | cons file files ih =>
      apply within_bind (within_tryWrite file.2 (h file (by simp)))
      intro failure
      apply within_bind (ih fun f hf => h f (by simp [hf]))
      exact fun _ => within_pure _

theorem within_writePrimary {p : Project} {m : CompiledModule} (environment : Value)
    (externs : Content)
    (h : ∀ a, p.artifacts m.name = .ok a → ∀ q ∈ a.primary, Admits current D W q) :
    Within current D W (p.writePrimary m environment externs) := by
  unfold Project.writePrimary
  simp only []
  split
  · exact within_throw_bind _ _
  · apply within_bind_lift
    intro a ha
    apply within_bind_lift
    intro texts _
    apply within_bind
    · apply within_tryWriteAll
      simpa [Artifacts.primary] using h a ha
    · intro failures
      split
      · exact within_pure _
      · exact within_throw _

theorem within_writeAll {target : Path} (files : List (String × Content))
    (h : ∀ file ∈ files, Admits current D W (target.child file.1)) :
    Within current D W (Support.writeAll target files) := by
  induction files with
  | nil => exact within_pure _
  | cons file files ih =>
      apply within_bind (within_writeFile file.2 (h file (by simp)))
      exact fun _ => ih fun f hf => h f (by simp [hf])

theorem plain_of_mem_payloads {file : String × Content} (h : file ∈ Support.payloads) :
    IsPlain file.1 := by
  simp only [Support.payloads, Support.files, List.map_cons, List.map_nil, List.mem_cons,
    List.not_mem_nil, or_false] at h
  rcases h with rfl | rfl | rfl <;> decide

theorem announces_support (text : String) :
    announces ("  ✓ Runtime support written → " ++ text) = false := by
  simp [announces, List.isPrefixOf]

theorem within_unpack (output : Path) (directory : String) {files : List (String × Content)}
    (h : ∀ file ∈ files,
      Admits current D W ((output.normalize.child directory).child file.1)) :
    Within current D W (Support.unpack output directory files) := by
  unfold Support.unpack
  apply within_bind within_get
  intro w
  apply within_bind (within_lift _)
  intro found
  split
  · exact within_pure _
  · apply within_bind (within_writeAll files h)
    intro _
    exact within_bind (within_printLine (announces_support _)) fun _ => within_pure _

theorem within_presentCompanion (found : OrderedMap Extension Path) (ext : Extension) :
    Within current D W (presentCompanion found ext) := by
  unfold presentCompanion
  split
  · exact within_pure _
  · apply within_bind within_get
    intro w
    apply within_bind (within_lift _)
    intro present
    split
    · exact within_pure _
    · exact within_pure _

theorem within_writeForeignHeader (found : OrderedMap Extension Path) (needsForeign : Bool)
    {a : Artifacts} (config : Config) (h : Admits current D W a.foreignHeader) :
    Within current D W (writeForeignHeader found needsForeign a config) := by
  apply within_bind (within_presentCompanion found config.headerExt)
  intro source?
  split
  · exact within_bind (within_copyFile _ h) fun _ => within_pure _
  · split
    · exact within_bind (within_writeBytes _ h) fun _ => within_pure _
    · exact within_pure _

theorem within_writeForeignImplementation (found : OrderedMap Extension Path)
    {a : Artifacts} (config : Config) (h : Admits current D W a.foreignImplementation) :
    Within current D W (writeForeignImplementation found a config) := by
  apply within_bind (within_presentCompanion found config.implExt)
  intro source?
  split
  · exact within_bind (within_copyFile _ h) fun _ => within_pure _
  · exact within_pure _

theorem within_copyIfPossible (source : Path) {target : Path}
    (h : Admits current D W target) : Within current D W (copyIfPossible source target) := by
  apply within_tryCatch
  · apply within_bind within_get
    intro w
    apply within_bind (within_lift _)
    intro present
    split
    · exact within_bind (within_copyFile source h) fun _ => within_pure _
    · exact within_pure _
  · intro e
    split
    · exact within_pure _
    · exact within_throw _

theorem within_copyOthers (found : OrderedMap Extension Path)
    {targets : List (Extension × Path)} (h : ∀ t ∈ targets, Admits current D W t.2) :
    Within current D W (copyOthers found targets) := by
  induction targets with
  | nil => exact within_pure _
  | cons target targets ih =>
      have hrest := ih fun t ht => h t (by simp [ht])
      unfold copyOthers
      split
      · apply within_bind (within_pure _)
        intro copied
        exact within_bind hrest fun _ => within_pure _
      · apply within_bind (within_copyIfPossible _ (h target (by simp)))
        intro copied
        exact within_bind hrest fun _ => within_pure _

def writeFound (found : OrderedMap Extension Path) (needsForeign : Bool) (a : Artifacts)
    (config : Config) : BuildM (List Path) := do
  let header ← writeForeignHeader found needsForeign a config
  let implementation ← writeForeignImplementation found a config
  let others ← copyOthers found a.foreignOthers.toList
  return header ++ implementation ++ others

theorem writeCompanions_none_eq (needsForeign : Bool) (a : Artifacts) (config : Config) :
    writeCompanions none needsForeign a config = writeFound ∅ needsForeign a config :=
  rfl

theorem writeCompanions_some_eq (source : Path) (needsForeign : Bool) (a : Artifacts)
    (config : Config) :
    writeCompanions (some source) needsForeign a config =
      monadLift ((companions source config).mapError BuildError.fileName) >>= fun found =>
        writeFound found needsForeign a config :=
  rfl

theorem within_writeFound (found : OrderedMap Extension Path) (needsForeign : Bool)
    {a : Artifacts} (config : Config) (h : ∀ q ∈ foreignPaths a, Admits current D W q) :
    Within current D W (writeFound found needsForeign a config) := by
  apply within_bind (within_writeForeignHeader found needsForeign config
    (h _ (by simp [foreignPaths])))
  intro header
  apply within_bind (within_writeForeignImplementation found config
    (h _ (by simp [foreignPaths])))
  intro implementation
  apply within_bind
  · apply within_copyOthers
    intro target htarget
    apply h
    simp only [foreignPaths, OrderedMap.values, List.mem_cons, List.mem_map]
    exact .inr (.inr ⟨target, htarget, rfl⟩)
  · exact fun _ => within_pure _

theorem within_writeCompanions (source? : Option Path) (needsForeign : Bool) {a : Artifacts}
    (config : Config) (h : ∀ q ∈ foreignPaths a, Admits current D W q) :
    Within current D W (writeCompanions source? needsForeign a config) := by
  cases source? with
  | none => exact within_writeFound ∅ needsForeign config h
  | some source =>
      rw [writeCompanions_some_eq]
      exact within_bind (within_lift _) fun found => within_writeFound found needsForeign config h

/-- Writing a module moves the workspace within the places of its outputs and of the
support files. -/
theorem within_persist {p : Project} {m : CompiledModule} (environment : Value) (externs : Content)
    (h : ∀ a, p.artifacts m.name = .ok a → ∀ q ∈ a.all, Admits current D W q)
    (hsupport : ∀ file ∈ Support.payloads,
      Admits current D W ((p.output.normalize.child p.config.supportDir).child file.1)) :
    Within current D W (p.persist m environment externs) := by
  apply within_bind (within_lift _)
  intro location
  have hprimary : Within current D W (p.writePrimary m environment externs) :=
    within_writePrimary environment externs fun a ha q hq =>
      h a ha q (all_of_mem_primary hq)
  apply within_bind_result hprimary
  intro a u v ha
  apply within_bind (within_unpack p.output p.config.supportDir hsupport)
  intro _
  have hartifacts : p.artifacts m.name = .ok a := by
    obtain ⟨_, hplan, _⟩ := writePrimary_eq_ok_iff.mp ha
    exact hplan.2.1
  have hcompanions : ∀ q ∈ foreignPaths a, Admits current D W q :=
    fun q hq => h a hartifacts q (all_of_mem_foreignPaths hq)
  exact within_bind (within_writeCompanions _ _ _ hcompanions) fun _ => within_pure _

theorem within_persist_top (p : Project) (m : CompiledModule) (environment : Value)
    (externs : Content) :
    Within current (fun _ => True) (fun _ => True) (p.persist m environment externs) :=
  within_persist environment externs (fun _ _ q _ => admits_top current q)
    fun _ _ => admits_top current _

end

end Rebuild.Proofs.Steps
