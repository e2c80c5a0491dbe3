import Rebuild.FileTree.Resolve
import Rebuild.Proofs.PathNormal

/-!
Looking paths up, as a fact about the places of a tree. A path without double
dots names one place whatever the tree holds; a tree that has more entries, of
the same kinds, still resolves what resolved before.
-/

namespace Rebuild.Proofs.Lookup

open Rebuild.FileTree
open Rebuild.Proofs.PathNormal

theorem exists_join_append (sep : String) (xs ys : List String) :
    ∃ rest, Text.join sep (xs ++ ys) = Text.join sep xs ++ rest := by
  induction xs with
  | nil => exact ⟨Text.join sep ys, by simp [Text.join]⟩
  | cons x xs ih =>
      obtain ⟨rest, hrest⟩ := ih
      by_cases hxs : xs = []
      · subst hxs
        by_cases hys : ys = []
        · exact ⟨"", by simp [hys]⟩
        · refine ⟨sep ++ Text.join sep ys, ?_⟩
          rw [List.cons_append, List.nil_append, Text.join_cons _ _ hys]
          simp [Text.join, String.append_assoc]
      · refine ⟨rest, ?_⟩
        rw [List.cons_append, Text.join_cons _ _ (by simp [hxs]), Text.join_cons _ _ hxs, hrest]
        simp [String.append_assoc]

/-- A path that file calls take: no character of it ends a path early, and it is
not too long. -/
def IsUsable (p : Path) : Prop :=
  p.normalize.hasNul = false ∧ p.normalize.text.utf8ByteSize < maxPathBytes

theorem isUsable_of_append {root : Path.Root} {xs ys : List String}
    (hnormal : IsNormal ⟨root, xs ++ ys⟩) (h : IsUsable ⟨root, xs ++ ys⟩) :
    IsUsable ⟨root, xs⟩ := by
  have hxs : IsNormal ⟨root, xs⟩ :=
    isNormal_of_subset hnormal fun part hpart => List.mem_append_left ys hpart
  unfold IsUsable at h ⊢
  rw [normalize_eq_self hnormal] at h
  rw [normalize_eq_self hxs]
  obtain ⟨rest, hrest⟩ := exists_join_append "/" xs ys
  by_cases hempty : root.text ++ Text.join "/" xs = ""
  · simp only [Path.hasNul, Path.text, hempty, if_true]
    exact ⟨by decide, by decide⟩
  · have hfull : Path.text ⟨root, xs ++ ys⟩ = Path.text ⟨root, xs⟩ ++ rest := by
      have hne : ¬ root.text ++ (Text.join "/" xs ++ rest) = "" := by
        intro hnil
        rw [← String.append_assoc] at hnil
        exact hempty (String.append_eq_empty_iff.mp hnil).1
      simp only [Path.text, hrest, if_neg hne, if_neg hempty, String.append_assoc]
    simp only [Path.hasNul, hfull] at h
    refine ⟨?_, ?_⟩
    · have hnul := h.1
      simp only [String.toList_append, List.contains_eq_mem, List.mem_append,
        decide_eq_false_iff_not, not_or] at hnul
      simpa [Path.hasNul] using hnul.1
    · have hsize := h.2
      rw [String.utf8ByteSize_append] at hsize
      omega

theorem get?_of_suffix {t : FileTree} {k l : Location} (hsuffix : k <:+ l) (hne : k ≠ l)
    (hl : t.get? l ≠ none) : t.get? k = some .directory := by
  induction l with
  | nil => exact absurd (List.suffix_nil.mp hsuffix) hne
  | cons name parent ih =>
      have hparent : t.get? parent = some .directory := get?_parent hl
      rcases List.suffix_cons_iff.mp hsuffix with heq | hsuffix
      · exact absurd heq hne
      · by_cases heq : k = parent
        · rw [heq, hparent]
        · exact ih hsuffix heq (by simp [hparent])

theorem get?_tail {t : FileTree} {l : Location} (hl : t.get? l ≠ none) :
    t.get? l.tail = some .directory := by
  cases l with
  | nil => exact get?_top t
  | cons name parent => exact get?_parent hl

theorem directory_of_suffix {t : FileTree} {k l : Location} (hsuffix : k <:+ l)
    (hl : t.get? l = some .directory) : t.get? k = some .directory := by
  by_cases heq : k = l
  · rw [heq, hl]
  · exact get?_of_suffix hsuffix heq (by simp [hl])

theorem walk_append (t : FileTree) (place : Location) (xs ys : List String) :
    t.walk place (xs ++ ys) = (t.walk place xs).bind fun next => t.walk next ys := by
  induction xs generalizing place with
  | nil => rfl
  | cons name xs ih =>
      simp only [List.cons_append, walk]
      split
      · rfl
      · rfl
      · split
        · exact ih _
        · split
          · rfl
          · exact ih _

theorem walk_fault {t : FileTree} {place : Location} {names : List String} {fault : FileFault}
    (h : t.walk place names = .error fault) :
    fault = .notFound ∨ fault = .notADirectory ∨ fault = .nameTooLong := by
  induction names generalizing place with
  | nil => simp [walk] at h
  | cons name names ih =>
      simp only [walk] at h
      split at h
      · simp_all
      · simp_all
      · split at h
        · exact ih h
        · split at h
          · simp_all
          · exact ih h

/-- One component further: a double dot leads back to the parent, a name below. -/
def stepTo (place : Location) (name : String) : Location :=
  if name = ".." then place.tail else name :: place

theorem walk_eq_foldl {t : FileTree} {place l : Location} {names : List String}
    (h : t.walk place names = .ok l) : l = names.foldl stepTo place := by
  induction names generalizing place with
  | nil => simpa [walk] using h.symm
  | cons name names ih =>
      simp only [walk] at h
      rw [List.foldl_cons, stepTo]
      split at h
      · cases h
      · cases h
      · split at h
        · rename_i hup
          rw [if_pos hup]
          exact ih h
        · rename_i hname
          rw [if_neg hname]
          split at h
          · cases h
          · exact ih h

theorem foldl_stepTo_straight {place : Location} {names : List String}
    (hstraight : ".." ∉ names) : names.foldl stepTo place = names.reverse ++ place := by
  induction names generalizing place with
  | nil => rfl
  | cons name names ih =>
      have hname : ¬ name = ".." := fun heq => hstraight (by simp [heq])
      have hnames : ".." ∉ names := fun hmem => hstraight (by simp [hmem])
      simp [stepTo, hname, ih hnames]

/-- A walk over short names without double dots ends where the names lead, or on the
way there something is missing or a file. -/
theorem walk_short (t : FileTree) (place : Location) (names : List String)
    (hstraight : ".." ∉ names) (hshort : ∀ name ∈ names, name.utf8ByteSize ≤ maxNameBytes) :
    t.walk place names = .ok (names.reverse ++ place) ∨
      t.get? (names.reverse ++ place) = none ∧
        (t.walk place names = .error .notFound ∨
          t.walk place names = .error .notADirectory ∧
            ∃ k content modified, place <:+ k ∧ k <:+ names.reverse ++ place ∧
              t.get? k = some (.file content modified)) := by
  induction names generalizing place with
  | nil => exact .inl rfl
  | cons name names ih =>
      have hname : ¬ name = ".." := fun heq => hstraight (by simp [heq])
      have hnames : ".." ∉ names := fun hmem => hstraight (by simp [hmem])
      have hsize : ¬ maxNameBytes < name.utf8ByteSize := by
        have := hshort name (by simp)
        omega
      have hsuffix : place <:+ names.reverse ++ (name :: place) :=
        (List.suffix_cons name place).trans (List.suffix_append _ _)
      have hproper : place ≠ names.reverse ++ (name :: place) := by
        intro heq
        have := congrArg List.length heq
        simp at this
        omega
      have hmissing : t.get? place ≠ some .directory →
          t.get? (names.reverse ++ (name :: place)) = none := by
        intro hplace
        cases hentry : t.get? (names.reverse ++ (name :: place)) with
        | none => rfl
        | some e =>
            exact absurd (get?_of_suffix hsuffix hproper (by simp [hentry])) hplace
      simp only [List.reverse_cons, List.append_assoc, List.cons_append, List.nil_append, walk]
      cases hentry : t.get? place with
      | none => exact .inr ⟨hmissing (by simp [hentry]), .inl rfl⟩
      | some e =>
          cases e with
          | file content modified =>
              exact .inr ⟨hmissing (by simp [hentry]),
                .inr ⟨rfl, place, content, modified, List.suffix_refl _, hsuffix, hentry⟩⟩
          | directory =>
              simp only [hname, if_false, hsize]
              rcases ih (name :: place) hnames fun n hn => hshort n (by simp [hn]) with
                hok | ⟨hnone, hfault | ⟨hfault, k, content, modified, hk, hk', hfile⟩⟩
              · exact .inl hok
              · exact .inr ⟨hnone, .inl hfault⟩
              · exact .inr ⟨hnone, .inr ⟨hfault, k, content, modified,
                  (List.suffix_cons name place).trans hk, hk', hfile⟩⟩

theorem short_of_walk {t : FileTree} {place l : Location} {names : List String}
    (hstraight : ".." ∉ names) (h : t.walk place names = .ok l) :
    ∀ name ∈ names, name.utf8ByteSize ≤ maxNameBytes := by
  induction names generalizing place with
  | nil => simp
  | cons first names ih =>
      have hfirst : ¬ first = ".." := fun heq => hstraight (by simp [heq])
      have hnames : ".." ∉ names := fun hmem => hstraight (by simp [hmem])
      simp only [walk, hfirst, if_false] at h
      split at h
      · cases h
      · cases h
      · split at h
        · cases h
        · rename_i hsize
          intro name hname
          rcases List.mem_cons.mp hname with rfl | hname
          · omega
          · exact ih hnames h name hname

def startFrom (current : Location) : Path.Root → Location
  | .relative => current
  | .single | .double => []

/-- The place that the components of a path lead to when no double dot is among
them. -/
def placeFrom (current : Location) (p : Path) : Location :=
  p.normalize.parts.reverse ++ startFrom current p.root

theorem startOf_eq (t : FileTree) (root : Path.Root) :
    t.startOf root = startFrom t.current root := by
  cases root <;> rfl

@[simp] theorem placeFrom_normalize (current : Location) (p : Path) :
    placeFrom current p.normalize = placeFrom current p := by
  simp [placeFrom]

theorem placeFrom_parent_suffix (current : Location) (q : Path) :
    placeFrom current q.normalize.parent <:+ placeFrom current q := by
  have hlast := q.normalize.parts.dropLast_prefix
  obtain ⟨rest, hrest⟩ := hlast
  refine ⟨rest.reverse, ?_⟩
  unfold placeFrom
  rw [normalize_parent_normalize, ← List.append_assoc]
  conv => rhs; rw [← hrest, List.reverse_append]
  rfl

theorem placeFrom_eq_cons (current : Location) {q : Path} (hne : q.normalize.parts ≠ []) :
    ∃ name, placeFrom current q = name :: placeFrom current q.normalize.parent := by
  obtain ⟨names, name, hsnoc⟩ := (List.eq_nil_or_concat q.normalize.parts).resolve_left hne
  rw [List.concat_eq_append] at hsnoc
  refine ⟨name, ?_⟩
  have hparent : q.normalize.parent.parts = names := by simp [Path.parent, hsnoc]
  unfold placeFrom
  rw [normalize_parent_normalize, hparent, hsnoc]
  simp

@[simp] theorem resolve_normalize (t : FileTree) (p : Path) :
    t.resolve p.normalize = t.resolve p := by
  simp [resolve]

theorem resolve_eq_ok_iff {t : FileTree} {p : Path} {l : Location} :
    t.resolve p = .ok l ↔
      IsUsable p ∧ t.walk (startFrom t.current p.root) p.normalize.parts = .ok l := by
  rw [← startOf_eq]
  unfold resolve IsUsable
  by_cases hnul : p.normalize.hasNul = true
  · simp [hnul]
  · by_cases hsize : maxPathBytes ≤ p.normalize.text.utf8ByteSize
    · have hlong : ¬ p.normalize.text.utf8ByteSize < maxPathBytes := by omega
      simp [hnul, hsize, hlong]
    · have hlt : p.normalize.text.utf8ByteSize < maxPathBytes := by omega
      cases hwalk : t.walk (t.startOf p.root) p.normalize.parts <;>
        simp [hnul, hsize, hlt, hwalk]

theorem resolve_of_usable {t : FileTree} {p : Path} (h : IsUsable p) :
    t.resolve p =
      (t.walk (startFrom t.current p.root) p.normalize.parts).mapError .refused := by
  have hsize : ¬ maxPathBytes ≤ p.normalize.text.utf8ByteSize := by
    have := h.2
    omega
  simp [resolve, h.1, hsize, startOf_eq]

theorem resolve_of_not_usable {p : Path} (h : ¬ IsUsable p) (t : FileTree) :
    t.resolve p = .error .embeddedNul ∨ t.resolve p = .error (.refused .nameTooLong) := by
  unfold resolve
  by_cases hnul : p.normalize.hasNul = true
  · simp [hnul]
  · have hsize : maxPathBytes ≤ p.normalize.text.utf8ByteSize := by
      simp only [IsUsable, not_and, Bool.not_eq_true] at h hnul
      have := h hnul
      omega
    simp [hnul, hsize]

theorem resolve_init {t : FileTree} {root : Path.Root} {xs : List String} {name : String}
    {l : Location} (hnormal : IsNormal ⟨root, xs ++ [name]⟩)
    (h : t.resolve ⟨root, xs ++ [name]⟩ = .ok l) :
    ∃ k, t.resolve ⟨root, xs⟩ = .ok k ∧ t.get? k = some .directory := by
  have hxs : IsNormal ⟨root, xs⟩ :=
    isNormal_of_subset hnormal fun part hpart => List.mem_append_left [name] hpart
  obtain ⟨husable, hwalk⟩ := resolve_eq_ok_iff.mp h
  rw [normalize_eq_self hnormal, walk_append] at hwalk
  cases hk : t.walk (startFrom t.current root) xs with
  | error fault => simp [hk, Except.bind] at hwalk
  | ok k =>
      refine ⟨k, resolve_eq_ok_iff.mpr ⟨isUsable_of_append hnormal husable, ?_⟩, ?_⟩
      · rw [normalize_eq_self hxs]
        exact hk
      · simp only [hk, Except.bind, walk] at hwalk
        split at hwalk
        · cases hwalk
        · cases hwalk
        · assumption

theorem resolve_snoc_found {t : FileTree} {root : Path.Root} {xs : List String}
    {name : String} {k : Location} (hnormal : IsNormal ⟨root, xs ++ [name]⟩)
    (hk : t.resolve ⟨root, xs⟩ = .ok k) (hdir : t.get? k = some .directory) :
    t.resolve ⟨root, xs ++ [name]⟩ ≠ .error (.refused .notFound) := by
  have hxs : IsNormal ⟨root, xs⟩ :=
    isNormal_of_subset hnormal fun part hpart => List.mem_append_left [name] hpart
  intro h
  by_cases husable : IsUsable ⟨root, xs ++ [name]⟩
  · have hwalk := (resolve_eq_ok_iff.mp hk).2
    rw [normalize_eq_self hxs] at hwalk
    rw [resolve_of_usable husable, normalize_eq_self hnormal, walk_append, hwalk] at h
    simp only [Except.bind, walk, hdir] at h
    split at h
    · cases h
    · split at h <;> cases h
  · rcases resolve_of_not_usable husable t with h' | h' <;> simp [h] at h'

theorem resolve_fault {t : FileTree} {p : Path} {fault : AccessFault}
    (h : t.resolve p = .error fault) :
    fault = .embeddedNul ∨ fault = .refused .notFound ∨ fault = .refused .notADirectory ∨
      fault = .refused .nameTooLong := by
  by_cases husable : IsUsable p
  · rw [resolve_of_usable husable] at h
    cases hwalk : t.walk (startFrom t.current p.root) p.normalize.parts with
    | ok l => simp [hwalk] at h
    | error f =>
        simp only [hwalk, mapError_error, Except.error.injEq] at h
        subst h
        rcases walk_fault hwalk with rfl | rfl | rfl <;> simp
  · rcases resolve_of_not_usable husable t with h' | h' <;> simp_all

/-- The place to which the components of a path lead, if they lead anywhere: there are no
other ways through a tree than up and down. -/
def endOf (current : Location) (p : Path) : Location :=
  p.normalize.parts.foldl stepTo (startFrom current p.root)

@[simp] theorem endOf_normalize (current : Location) (p : Path) :
    endOf current p.normalize = endOf current p := by
  simp [endOf]

theorem endOf_straight (current : Location) {p : Path} (hp : IsStraight p) :
    endOf current p = placeFrom current p :=
  foldl_stepTo_straight hp

theorem endOf_child (current : Location) (p : Path) {s : String} (hs : IsPlain s) :
    endOf current (p.child s) = s :: endOf current p := by
  unfold endOf
  rw [normalize_child_of_isPlain hs, child_of_isPlain hs, List.foldl_append]
  simp [stepTo, hs.2.2.1]

theorem resolve_eq_endOf {t : FileTree} {p : Path} {l : Location} (h : t.resolve p = .ok l) :
    l = endOf t.current p :=
  walk_eq_foldl (resolve_eq_ok_iff.mp h).2

theorem resolve_straight {t : FileTree} {p : Path} {l : Location} (hp : IsStraight p)
    (h : t.resolve p = .ok l) : l = placeFrom t.current p :=
  (resolve_eq_endOf h).trans (endOf_straight t.current hp)

theorem probe_eq (t : FileTree) (p : Path) :
    t.probe p =
      match t.resolve p with
      | .ok l => .ok (t.get? l)
      | .error (.refused .nameTooLong) => .error .nameTooLong
      | .error _ => .ok none := by
  unfold probe status
  cases h : t.resolve p with
  | ok l =>
      simp only [bind, Except.bind]
      cases t.get? l <;> rfl
  | error fault =>
      rcases resolve_fault h with rfl | rfl | rfl | rfl <;> rfl

theorem probe_eq_some_iff {t : FileTree} {p : Path} {e : Entry} :
    t.probe p = .ok (some e) ↔ ∃ l, t.resolve p = .ok l ∧ t.get? l = some e := by
  rw [probe_eq]
  cases h : t.resolve p with
  | ok l => simp
  | error fault =>
      rcases resolve_fault h with rfl | rfl | rfl | rfl <;> simp

theorem probe_eq_error_iff {t : FileTree} {p : Path} {fault : FileFault} :
    t.probe p = .error fault ↔
      fault = .nameTooLong ∧ t.resolve p = .error (.refused .nameTooLong) := by
  rw [probe_eq]
  cases h : t.resolve p with
  | ok l => simp
  | error fault' => rcases resolve_fault h with rfl | rfl | rfl | rfl <;> simp [eq_comm]

/-- The path stays within what a file system takes: neither the whole nor a component
is too long. -/
def Fits (p : Path) : Prop :=
  p.normalize.text.utf8ByteSize < maxPathBytes ∧
    ∀ name ∈ p.normalize.parts, name.utf8ByteSize ≤ maxNameBytes

instance (p : Path) : Decidable (Fits p) := by
  unfold Fits
  infer_instance

theorem walk_of_short {t : FileTree} {place : Location} {names : List String}
    (hshort : ∀ name ∈ names, name.utf8ByteSize ≤ maxNameBytes) :
    t.walk place names ≠ .error .nameTooLong := by
  induction names generalizing place with
  | nil => simp [walk]
  | cons name names ih =>
      have hsize : ¬ maxNameBytes < name.utf8ByteSize := Nat.not_lt.mpr (hshort name (by simp))
      have hrest : ∀ place, t.walk place names ≠ .error .nameTooLong := fun _ =>
        ih fun n hn => hshort n (by simp [hn])
      simp only [walk, hsize, if_false]
      split
      · simp
      · simp
      · split <;> exact hrest _

theorem exists_probe (t : FileTree) {p : Path} (hfits : Fits p) : ∃ e?, t.probe p = .ok e? := by
  rw [probe_eq]
  cases hl : t.resolve p with
  | ok l => exact ⟨_, rfl⟩
  | error fault =>
      have hlong : fault ≠ .refused .nameTooLong := by
        rintro rfl
        by_cases husable : IsUsable p
        · rw [resolve_of_usable husable] at hl
          cases hwalk : t.walk (startFrom t.current p.root) p.normalize.parts with
          | ok l => simp [hwalk] at hl
          | error f =>
              simp only [hwalk, mapError_error, Except.error.injEq,
                AccessFault.refused.injEq] at hl
              exact walk_of_short hfits.2 (hl ▸ hwalk)
        · have hsize : ¬ maxPathBytes ≤ p.normalize.text.utf8ByteSize := Nat.not_le.mpr hfits.1
          unfold resolve at hl
          simp_all [IsUsable]
      rcases resolve_fault hl with rfl | rfl | rfl | rfl
      · exact ⟨_, rfl⟩
      · exact ⟨_, rfl⟩
      · exact ⟨_, rfl⟩
      · exact absurd rfl hlong

/-- A path without double dots that is not too long is looked up by its place alone. -/
theorem probe_of_fits (t : FileTree) {p : Path} (hp : IsStraight p) (hfits : Fits p) :
    t.probe p =
      .ok (if p.normalize.hasNul = true then none else t.get? (placeFrom t.current p)) := by
  rw [probe_eq]
  by_cases hnul : p.normalize.hasNul = true
  · simp [resolve, hnul]
  · have husable : IsUsable p := ⟨by simpa using hnul, hfits.1⟩
    rw [resolve_of_usable husable, if_neg hnul]
    unfold placeFrom
    rcases walk_short t (startFrom t.current p.root) _ hp hfits.2 with
      hwalk | ⟨hnone, hwalk | ⟨hwalk, -⟩⟩
    · simp [hwalk]
    · simp [hwalk, hnone]
    · simp [hwalk, hnone]

theorem resolve_of_directory {t : FileTree} {p : Path} {k : Location} (hp : IsStraight p)
    (hfits : Fits p) (hnul : p.normalize.hasNul = false) (hne : p.normalize.parts ≠ [])
    (hk : t.resolve p.normalize.parent = .ok k) (hdir : t.get? k = some .directory) :
    t.resolve p = .ok (placeFrom t.current p) := by
  obtain ⟨names, name, hsnoc⟩ := (List.eq_nil_or_concat p.normalize.parts).resolve_left hne
  rw [List.concat_eq_append] at hsnoc
  have hname : name ∈ p.normalize.parts := by simp [hsnoc]
  have hup : ¬ name = ".." := fun heq => hp (heq ▸ hname)
  have hsize : ¬ maxNameBytes < name.utf8ByteSize := Nat.not_lt.mpr (hfits.2 name hname)
  have hwalk := (resolve_eq_ok_iff.mp hk).2
  simp only [normalize_parent_normalize, root_parent, root_normalize] at hwalk
  have hparent : p.normalize.parent.parts = names := by simp [Path.parent, hsnoc]
  rw [hparent] at hwalk
  have hfound : t.resolve p = .ok (name :: k) := by
    refine resolve_eq_ok_iff.mpr ⟨⟨hnul, hfits.1⟩, ?_⟩
    rw [hsnoc, walk_append, hwalk]
    simp [Except.bind, walk, hdir, hup, hsize]
  rw [hfound, resolve_straight hp hfound]

theorem fits_of_resolve {t : FileTree} {p : Path} {l : Location} (hp : IsStraight p)
    (h : t.resolve p = .ok l) : Fits p :=
  ⟨(resolve_eq_ok_iff.mp h).1.2, short_of_walk hp (resolve_eq_ok_iff.mp h).2⟩

end Rebuild.Proofs.Lookup
