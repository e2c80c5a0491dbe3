import Rebuild.ModuleMap
import Rebuild.Proofs.Layout

namespace Rebuild.Proofs.ModuleEntries

open Rebuild.Proofs.Layout

/-- The first element with a property. -/
def IsFirst {α : Type} (P : α → Prop) (xs : List α) (x : α) : Prop :=
  ∃ before after, xs = before ++ x :: after ∧ P x ∧ ∀ y ∈ before, ¬ P y

/-- The last element with a property. -/
def IsLast {α : Type} (P : α → Prop) (xs : List α) (x : α) : Prop :=
  ∃ before after, xs = before ++ x :: after ∧ P x ∧ ∀ y ∈ after, ¬ P y

section

variable {α β : Type} {P Q : α → Prop} {xs : List α} {x y : α}

theorem IsFirst.mem (h : IsFirst P xs x) : x ∈ xs := by
  obtain ⟨before, after, rfl, _⟩ := h
  simp

theorem IsFirst.holds (h : IsFirst P xs x) : P x := by
  obtain ⟨_, _, _, hx, _⟩ := h
  exact hx

theorem isFirst_cons_iff :
    IsFirst P (x :: xs) y ↔ y = x ∧ P x ∨ ¬ P x ∧ IsFirst P xs y := by
  constructor
  · rintro ⟨before, after, heq, hy, hbefore⟩
    cases before with
    | nil =>
        obtain ⟨rfl, rfl⟩ := List.cons.inj heq
        exact .inl ⟨rfl, hy⟩
    | cons b before =>
        obtain ⟨rfl, rfl⟩ := List.cons.inj heq
        obtain ⟨hx, hbefore⟩ := List.forall_mem_cons.mp hbefore
        exact .inr ⟨hx, before, after, rfl, hy, hbefore⟩
  · rintro (⟨rfl, hx⟩ | ⟨hx, before, after, rfl, hy, hbefore⟩)
    · exact ⟨[], xs, rfl, hx, by simp⟩
    · exact ⟨x :: before, after, rfl, hy, List.forall_mem_cons.mpr ⟨hx, hbefore⟩⟩

theorem exists_isFirst_iff : (∃ x, IsFirst P xs x) ↔ ∃ x ∈ xs, P x := by
  induction xs with
  | nil => simp [IsFirst]
  | cons x xs ih =>
      simp only [isFirst_cons_iff, List.mem_cons]
      by_cases hx : P x <;> simp [hx, ih]

theorem IsLast.mem (h : IsLast P xs x) : x ∈ xs := by
  obtain ⟨before, after, rfl, _⟩ := h
  simp

theorem IsLast.holds (h : IsLast P xs x) : P x := by
  obtain ⟨_, _, _, hx, _⟩ := h
  exact hx

theorem isLast_cons_iff :
    IsLast P (x :: xs) y ↔ IsLast P xs y ∨ y = x ∧ P x ∧ ∀ z ∈ xs, ¬ P z := by
  constructor
  · rintro ⟨before, after, heq, hy, hafter⟩
    cases before with
    | nil =>
        obtain ⟨rfl, rfl⟩ := List.cons.inj heq
        exact .inr ⟨rfl, hy, hafter⟩
    | cons b before =>
        obtain ⟨rfl, rfl⟩ := List.cons.inj heq
        exact .inl ⟨before, after, rfl, hy, hafter⟩
  · rintro (⟨before, after, rfl, hy, hafter⟩ | ⟨rfl, hx, hxs⟩)
    · exact ⟨x :: before, after, rfl, hy, hafter⟩
    · exact ⟨[], xs, rfl, hx, hxs⟩

theorem IsLast.unique (hx : IsLast P xs x) (hy : IsLast P xs y) : x = y := by
  induction xs with
  | nil => cases hx.mem
  | cons z xs ih =>
      rcases isLast_cons_iff.mp hx with hxs | ⟨hxz, _, hnone⟩ <;>
        rcases isLast_cons_iff.mp hy with hys | ⟨hyz, _, hnone'⟩
      · exact ih hxs hys
      · exact absurd hxs.holds (hnone' x hxs.mem)
      · exact absurd hys.holds (hnone y hys.mem)
      · exact hxz.trans hyz.symm

theorem IsLast.congr (h : IsLast P xs x) (hPQ : ∀ y ∈ xs, P y ↔ Q y) : IsLast Q xs x := by
  obtain ⟨before, after, rfl, hx, hafter⟩ := h
  refine ⟨before, after, rfl, (hPQ x (by simp)).mp hx, fun y hy hQ => ?_⟩
  exact hafter y hy ((hPQ y (by simp [hy])).mpr hQ)

theorem isLast_iff_find? {p : α → Bool} :
    IsLast (fun x => p x = true) xs x ↔ xs.reverse.find? p = some x := by
  rw [List.find?_eq_some_iff_append]
  constructor
  · rintro ⟨before, after, rfl, hx, hafter⟩
    exact ⟨hx, after.reverse, before.reverse, by simp, by simpa using hafter⟩
  · rintro ⟨hx, after, before, heq, hafter⟩
    refine ⟨before.reverse, after.reverse, ?_, hx, by simpa using hafter⟩
    rw [← List.reverse_reverse xs, heq]
    simp

end

theorem get?_ofList_eq_some_iff {α β : Type} [DecidableEq α] {pairs : List (α × β)} {k : α}
    {v : β} :
    (OrderedMap.ofList pairs).get? k = some v ↔ IsLast (fun p => p.1 = k) pairs (k, v) := by
  have hfind : ∀ p, IsLast (fun p => p.1 = k) pairs p ↔
      pairs.reverse.find? (fun p => p.1 == k) = some p := by
    intro p
    rw [← isLast_iff_find?]
    simp
  rw [OrderedMap.get?_ofList, Option.map_eq_some_iff]
  simp only [← hfind]
  constructor
  · rintro ⟨p, hp, rfl⟩
    obtain rfl := hp.holds
    exact hp
  · exact fun h => ⟨(k, v), h, rfl⟩

section

variable {pairs : List (Value × Value)} {read : List (ModuleName × SourceLocation)}

theorem readPairs_cons_eq_ok_iff {key v : Value} :
    ModuleMap.readPairs ((key, v) :: pairs) = .ok read ↔
      ∃ n l rest, ModuleName.ofValue key = .ok n ∧ SourceLocation.ofValue v = .ok l ∧
        ModuleMap.readPairs pairs = .ok rest ∧ read = (n, l) :: rest := by
  rw [ModuleMap.readPairs]
  simp only [except_bind_eq_ok_iff]
  constructor
  · rintro ⟨n, hn, l, hl, rest, hrest, h⟩
    cases h
    exact ⟨n, l, rest, hn, hl, hrest, rfl⟩
  · rintro ⟨n, l, rest, hn, hl, hrest, rfl⟩
    exact ⟨n, hn, l, hl, rest, hrest, rfl⟩

theorem mem_of_readPairs (h : ModuleMap.readPairs pairs = .ok read) {pair : Value × Value}
    (hpair : pair ∈ pairs) :
    ∃ entry ∈ read, ModuleName.ofValue pair.1 = .ok entry.1 := by
  induction pairs generalizing read with
  | nil => cases hpair
  | cons first pairs ih =>
      obtain ⟨key, v⟩ := first
      obtain ⟨n, l, rest, hn, _, hrest, rfl⟩ := readPairs_cons_eq_ok_iff.mp h
      rcases List.mem_cons.mp hpair with rfl | hpair
      · exact ⟨(n, l), by simp, hn⟩
      · obtain ⟨entry, hentry, hname⟩ := ih hrest hpair
        exact ⟨entry, List.mem_cons_of_mem _ hentry, hname⟩

/-- The last entry of a module was read from the last pair that names it. -/
theorem isLast_of_readPairs (h : ModuleMap.readPairs pairs = .ok read) {n : ModuleName}
    {l : SourceLocation} (hlast : IsLast (fun entry => entry.1 = n) read (n, l)) :
    ∃ pair, IsLast (fun pair => ModuleName.ofValue pair.1 = .ok n) pairs pair ∧
      SourceLocation.ofValue pair.2 = .ok l := by
  induction pairs generalizing read with
  | nil =>
      cases h
      cases hlast.mem
  | cons first pairs ih =>
      obtain ⟨key, v⟩ := first
      obtain ⟨n', l', rest, hn, hl, hrest, rfl⟩ := readPairs_cons_eq_ok_iff.mp h
      rcases isLast_cons_iff.mp hlast with hlast | ⟨heq, _, hnone⟩
      · obtain ⟨pair, hpair, hvalue⟩ := ih hrest hlast
        exact ⟨pair, isLast_cons_iff.mpr (.inl hpair), hvalue⟩
      · cases heq
        refine ⟨(key, v), isLast_cons_iff.mpr (.inr ⟨rfl, hn, fun pair hpair hname => ?_⟩), hl⟩
        obtain ⟨entry, hentry, hentryName⟩ := mem_of_readPairs hrest hpair
        rw [hname, Except.ok.injEq] at hentryName
        exact hnone entry hentry hentryName.symm

end

end Rebuild.Proofs.ModuleEntries
