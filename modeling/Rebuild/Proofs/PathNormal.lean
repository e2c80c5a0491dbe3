import Rebuild.Path

namespace Rebuild.Proofs.PathNormal

/-- A text that names one entry of a directory and cannot be read in any other
way: it is not empty, not a dot or two, and has no slash. -/
def IsPlain (s : String) : Prop :=
  s ≠ "" ∧ s ≠ "." ∧ s ≠ ".." ∧ '/' ∉ s.toList

instance (s : String) : Decidable (IsPlain s) := by
  unfold IsPlain
  infer_instance

theorem splitChars_of_not_mem {sep : Char} {cs : List Char} (h : sep ∉ cs) :
    Text.splitChars sep cs = [cs] := by
  induction cs with
  | nil => rfl
  | cons c cs ih =>
      have hc : ¬ c = sep := fun heq => h (by simp [heq])
      have hcs : sep ∉ cs := fun hmem => h (by simp [hmem])
      simp [Text.splitChars, hc, ih hcs]

theorem split_of_not_mem {sep : Char} {s : String} (h : sep ∉ s.toList) :
    Text.split sep s = [s] := by
  simp [Text.split, splitChars_of_not_mem h]

theorem not_mem_of_mem_split {sep : Char} {s piece : String}
    (h : piece ∈ Text.split sep s) : sep ∉ piece.toList := by
  simp only [Text.split, List.mem_map] at h
  obtain ⟨cs, hcs, rfl⟩ := h
  simpa using Text.not_mem_of_mem_splitChars hcs

theorem components_eq_singleton {s : String} (hslash : '/' ∉ s.toList) (hne : s ≠ "")
    (hdot : s ≠ ".") : Path.components s = [s] := by
  simp [Path.components, split_of_not_mem hslash, hne, hdot]

theorem components_of_isPlain {s : String} (h : IsPlain s) : Path.components s = [s] :=
  components_eq_singleton h.2.2.2 h.1 h.2.1

/-- A text that stays what it is when it is read as part of a path. -/
def IsComponent (s : String) : Prop :=
  Path.components s = [s]

instance (s : String) : Decidable (IsComponent s) := by
  unfold IsComponent
  infer_instance

theorem isComponent_iff {s : String} :
    IsComponent s ↔ '/' ∉ s.toList ∧ s ≠ "" ∧ s ≠ "." := by
  constructor
  · intro h
    have hself : s ∈ Path.components s := by simp [show Path.components s = [s] from h]
    simp only [Path.components, List.mem_filter, decide_eq_true_eq] at hself
    exact ⟨not_mem_of_mem_split hself.1, hself.2⟩
  · rintro ⟨hslash, hne, hdot⟩
    exact components_eq_singleton hslash hne hdot

theorem components_of_mem_components {s part : String} (h : part ∈ Path.components s) :
    Path.components part = [part] := by
  simp only [Path.components, List.mem_filter, decide_eq_true_eq] at h
  exact components_eq_singleton (not_mem_of_mem_split h.1) h.2.1 h.2.2

theorem rootOf_of_no_slash {s : String} (h : '/' ∉ s.toList) :
    Path.rootOf s = .relative := by
  have htake : s.toList.takeWhile (· = '/') = [] := by
    cases hs : s.toList with
    | nil => rfl
    | cons c cs =>
        have hc : ¬ c = '/' := fun heq => h (by simp [hs, heq])
        simp [hc]
  simp [Path.rootOf, htake]

theorem parse_of_isComponent {s : String} (h : IsComponent s) :
    Path.parse s = ⟨.relative, [s]⟩ := by
  simp [Path.parse, rootOf_of_no_slash (isComponent_iff.mp h).1,
    show Path.components s = [s] from h]

/-- Every component of a path is read as itself. -/
def IsNormal (p : Path) : Prop :=
  ∀ part ∈ p.parts, Path.components part = [part]

theorem isNormal_normalize (p : Path) : IsNormal p.normalize := by
  intro part hpart
  simp only [Path.normalize, List.mem_flatMap] at hpart
  obtain ⟨s, _, hs⟩ := hpart
  exact components_of_mem_components hs

theorem normalize_eq_self {p : Path} (h : IsNormal p) : p.normalize = p := by
  rcases p with ⟨root, parts⟩
  simp only [Path.normalize, Path.mk.injEq, true_and]
  induction parts with
  | nil => rfl
  | cons part parts ih =>
      have hpart : Path.components part = [part] := h part (by simp)
      have hparts : parts.flatMap Path.components = parts :=
        ih fun s hs => h s (by simp [hs])
      simp [hpart, hparts]

@[simp] theorem normalize_normalize (p : Path) : p.normalize.normalize = p.normalize :=
  normalize_eq_self (isNormal_normalize p)

@[simp] theorem root_normalize (p : Path) : p.normalize.root = p.root :=
  rfl

@[simp] theorem root_parent (p : Path) : p.parent.root = p.root :=
  rfl

theorem isNormal_of_subset {root : Path.Root} {parts : List String} {p : Path}
    (h : IsNormal p) (hsub : ∀ part ∈ parts, part ∈ p.parts) : IsNormal ⟨root, parts⟩ :=
  fun part hpart => h part (hsub part hpart)

theorem isNormal_parent {p : Path} (h : IsNormal p) : IsNormal p.parent :=
  isNormal_of_subset h fun _ hpart => List.dropLast_subset _ hpart

@[simp] theorem normalize_parent_normalize (p : Path) :
    p.normalize.parent.normalize = p.normalize.parent :=
  normalize_eq_self (isNormal_parent (isNormal_normalize p))

theorem isComponent_of_name? {q : Path} {x : String} (hq : IsNormal q) (hx : q.name? = some x) :
    IsComponent x :=
  hq x (List.mem_of_getLast? hx)

theorem isNormal_parse (s : String) : IsNormal (.parse s) :=
  fun _ hpart => components_of_mem_components hpart

theorem isNormal_append {q r : Path} (hq : IsNormal q) (hr : IsNormal r) : IsNormal (q ++ r) := by
  show IsNormal (Path.append q r)
  unfold Path.append
  split
  · exact hr
  · intro part hpart
    rcases List.mem_append.mp hpart with hpart | hpart
    · exact hq part hpart
    · exact hr part hpart

theorem isNormal_child {q : Path} (hq : IsNormal q) (s : String) : IsNormal (q.child s) :=
  isNormal_append hq (isNormal_parse s)

theorem isNormal_ofSegments (segments : List String) : IsNormal (.ofSegments segments) := by
  suffices ∀ q : Path, IsNormal q → IsNormal (segments.foldl Path.child q) from
    this .here fun part hpart => by cases hpart
  induction segments with
  | nil => exact fun q hq => hq
  | cons s segments ih => exact fun q hq => ih (q.child s) (isNormal_child hq s)

theorem child_of_isComponent {p : Path} {s : String} (h : IsComponent s) :
    p.child s = ⟨p.root, p.parts ++ [s]⟩ := by
  show Path.append p (Path.parse s) = _
  simp [parse_of_isComponent h, Path.append, Path.isAbsolute]

theorem child_of_isPlain {p : Path} {s : String} (h : IsPlain s) :
    p.child s = ⟨p.root, p.parts ++ [s]⟩ :=
  child_of_isComponent (components_of_isPlain h)

theorem normalize_child_of_isComponent {p : Path} {s : String} (h : IsComponent s) :
    (p.child s).normalize = ⟨p.root, p.normalize.parts ++ [s]⟩ := by
  rw [child_of_isComponent h]
  simp [Path.normalize, show Path.components s = [s] from h]

theorem normalize_child_of_isPlain {p : Path} {s : String} (h : IsPlain s) :
    (p.child s).normalize = ⟨p.root, p.normalize.parts ++ [s]⟩ :=
  normalize_child_of_isComponent (components_of_isPlain h)

theorem parent_child_of_isComponent {p : Path} {s : String} (h : IsComponent s) :
    (p.child s).normalize.parent = p.normalize := by
  rw [normalize_child_of_isComponent h]
  simp [Path.parent, Path.normalize]

theorem parent_child_of_isPlain {p : Path} {s : String} (h : IsPlain s) :
    (p.child s).normalize.parent = p.normalize :=
  parent_child_of_isComponent (components_of_isPlain h)

/-- The path goes through no double dot. -/
def IsStraight (p : Path) : Prop :=
  ".." ∉ p.normalize.parts

instance (p : Path) : Decidable (IsStraight p) := by
  unfold IsStraight
  infer_instance

theorem isStraight_normalize {p : Path} : IsStraight p.normalize ↔ IsStraight p := by
  simp [IsStraight]

theorem isStraight_parent {p : Path} (h : IsStraight p) : IsStraight p.normalize.parent := by
  unfold IsStraight at h ⊢
  rw [normalize_parent_normalize]
  exact fun hmem => h (List.dropLast_subset _ hmem)

end Rebuild.Proofs.PathNormal
