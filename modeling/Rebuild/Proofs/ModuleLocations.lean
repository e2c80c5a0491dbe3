import Mathlib.Data.List.Forall2
import Rebuild.Proofs.ModuleEntries
import Rebuild.Proofs.Runs

namespace Rebuild.Proofs.ModuleLocations

open Rebuild.Proofs.Steps
open Rebuild.Proofs.Layout
open Rebuild.Proofs.Runs
open Rebuild.Proofs.ModuleEntries

/-- The value spells the name: it is the name, or a text that is the name with blanks
around it. -/
inductive Spells : Value → ModuleName → Prop
  | name (n : ModuleName) : Spells (.name n) n
  | text {s : String} {n : ModuleName} (h : Text.strip s = n.text) : Spells (.text s) n

theorem parse_eq_ok_iff {s : String} {n : ModuleName} :
    ModuleName.parse s = .ok n ↔ Text.strip s = n.text := by
  constructor
  · exact fun h => (ModuleName.text_of_parse h).symm
  · intro h
    simp [ModuleName.parse, h, n.text_ne_empty, n.segments_ne]

theorem ofValue_eq_ok_iff {v : Value} {n : ModuleName} :
    ModuleName.ofValue v = .ok n ↔ Spells v n := by
  constructor
  · intro h
    cases v with
    | name m =>
        cases h
        exact .name n
    | text s => exact .text (parse_eq_ok_iff.mp (mapError_eq_ok_iff.mp h))
    | _ => cases h
  · rintro (_ | h)
    · rfl
    · exact mapError_eq_ok_iff.mpr (parse_eq_ok_iff.mpr h)

/-- The entry names a module and says where it comes from. -/
def IsReadable (entry : Value × Value) : Prop :=
  (∃ n, Spells entry.1 n) ∧ ∃ l, SourceLocation.ofValue entry.2 = .ok l

/-- What is wrong with an entry: its name, or else its location. -/
def HasFault (entry : Value × Value) (e : BuildError) : Prop :=
  ModuleName.ofValue entry.1 = .error e ∨
    (∃ n, Spells entry.1 n) ∧ SourceLocation.ofValue entry.2 = .error e

theorem not_isReadable_iff {entry : Value × Value} :
    ¬ IsReadable entry ↔ ∃ e, HasFault entry e := by
  unfold IsReadable HasFault
  simp only [← ofValue_eq_ok_iff]
  cases ModuleName.ofValue entry.1 <;> cases SourceLocation.ofValue entry.2 <;> simp

instance (v : Value) (n : ModuleName) : Decidable (Spells v n) :=
  decidable_of_iff (answers (ModuleName.ofValue v) n = true)
    (answers_iff.trans ofValue_eq_ok_iff)

theorem Spells.unique {v : Value} {n m : ModuleName} (hn : Spells v n) (hm : Spells v m) :
    n = m :=
  Except.ok.inj ((ofValue_eq_ok_iff.mpr hn).symm.trans (ofValue_eq_ok_iff.mpr hm))

section

variable {pairs : List (Value × Value)} {read : List (ModuleName × SourceLocation)}

theorem readPairs_eq_ok_iff :
    ModuleMap.readPairs pairs = .ok read ↔
      List.Forall₂ (fun pair entry => Spells pair.1 entry.1 ∧
        SourceLocation.ofValue pair.2 = .ok entry.2) pairs read := by
  induction pairs generalizing read with
  | nil =>
      rw [List.forall₂_nil_left_iff, ModuleMap.readPairs, Except.ok.injEq]
      exact eq_comm
  | cons pair pairs ih =>
      obtain ⟨key, v⟩ := pair
      rw [readPairs_cons_eq_ok_iff, List.forall₂_cons_left_iff]
      constructor
      · rintro ⟨n, l, rest, hn, hl, hrest, rfl⟩
        exact ⟨(n, l), rest, ⟨ofValue_eq_ok_iff.mp hn, hl⟩, ih.mp hrest, rfl⟩
      · rintro ⟨⟨n, l⟩, rest, ⟨hn, hl⟩, hrest, rfl⟩
        exact ⟨n, l, rest, ofValue_eq_ok_iff.mpr hn, hl, ih.mpr hrest, rfl⟩

theorem readPairs_cons_eq_error_iff {pair : Value × Value} {e : BuildError} :
    ModuleMap.readPairs (pair :: pairs) = .error e ↔
      HasFault pair e ∨ IsReadable pair ∧ ModuleMap.readPairs pairs = .error e := by
  unfold HasFault IsReadable
  simp only [← ofValue_eq_ok_iff, ModuleMap.readPairs]
  cases ModuleName.ofValue pair.1 with
  | error fault => simp [bind, Except.bind]
  | ok n =>
      cases SourceLocation.ofValue pair.2 with
      | error fault => simp [bind, Except.bind]
      | ok l => cases ModuleMap.readPairs pairs <;> simp [bind, Except.bind, pure, Except.pure]

/-- The reading ends at the first entry that cannot be read, with what is wrong with it. -/
theorem readPairs_eq_error_iff {e : BuildError} :
    ModuleMap.readPairs pairs = .error e ↔
      ∃ entry, IsFirst (fun entry => ¬ IsReadable entry) pairs entry ∧ HasFault entry e := by
  induction pairs with
  | nil => simp [ModuleMap.readPairs, IsFirst]
  | cons pair pairs ih =>
      rw [readPairs_cons_eq_error_iff, ih]
      simp only [isFirst_cons_iff, not_not]
      constructor
      · rintro (hfault | ⟨hpair, entry, hfirst, hfault⟩)
        · exact ⟨pair, .inl ⟨rfl, not_isReadable_iff.mpr ⟨e, hfault⟩⟩, hfault⟩
        · exact ⟨entry, .inr ⟨hpair, hfirst⟩, hfault⟩
      · rintro ⟨entry, ⟨rfl, _⟩ | ⟨hpair, hfirst⟩, hfault⟩
        · exact .inl hfault
        · exact .inr ⟨hpair, entry, hfirst, hfault⟩

end

section

variable {pairs : List (Value × Value)} {read : List (ModuleName × SourceLocation)}

theorem names_of_readPairs (h : ModuleMap.readPairs pairs = .ok read) :
    List.Forall₂ (fun entry n => Spells entry.1 n) pairs (read.map (·.1)) :=
  List.forall₂_map_right_iff.mpr ((readPairs_eq_ok_iff.mp h).imp fun _ _ hentry => hentry.1)

theorem mem_names_iff {names : List ModuleName}
    (h : List.Forall₂ (fun entry n => Spells entry.1 n) pairs names) {n : ModuleName} :
    n ∈ names ↔ ∃ entry ∈ pairs, Spells entry.1 n := by
  induction h with
  | nil => simp
  | @cons pair name pairs names hpair _ ih =>
      have hname : n = name ↔ Spells pair.1 n :=
        ⟨fun heq => heq ▸ hpair, fun hn => hn.unique hpair⟩
      simp [ih, hname]

theorem get?_eq_none_iff_of_readPairs (h : ModuleMap.readPairs pairs = .ok read)
    {n : ModuleName} :
    (OrderedMap.ofList read).get? n = none ↔ ∀ entry ∈ pairs, ¬ Spells entry.1 n := by
  rw [OrderedMap.get?_eq_none_iff, OrderedMap.keys_ofList, List.mem_eraseDups,
    mem_names_iff (names_of_readPairs h)]
  simp

/-- A module comes from where the last entry that names it says. -/
theorem get?_eq_some_iff_of_readPairs (h : ModuleMap.readPairs pairs = .ok read)
    {n : ModuleName} {l : SourceLocation} :
    (OrderedMap.ofList read).get? n = some l ↔
      ∃ entry, IsLast (fun entry => Spells entry.1 n) pairs entry ∧
        SourceLocation.ofValue entry.2 = .ok l := by
  have hfound : ∀ l', (OrderedMap.ofList read).get? n = some l' →
      ∃ entry, IsLast (fun entry => Spells entry.1 n) pairs entry ∧
        SourceLocation.ofValue entry.2 = .ok l' := by
    intro l' hl'
    obtain ⟨entry, hlast, hvalue⟩ := isLast_of_readPairs h (get?_ofList_eq_some_iff.mp hl')
    exact ⟨entry, hlast.congr fun _ _ => ofValue_eq_ok_iff, hvalue⟩
  refine ⟨hfound l, ?_⟩
  rintro ⟨entry, hlast, hvalue⟩
  cases hget : (OrderedMap.ofList read).get? n with
  | none =>
      exact absurd hlast.holds ((get?_eq_none_iff_of_readPairs h).mp hget entry hlast.mem)
  | some l' =>
      obtain ⟨entry', hlast', hvalue'⟩ := hfound l' hget
      rw [hlast'.unique hlast, hvalue, Except.ok.injEq] at hvalue'
      rw [hvalue']

end

def locationOf (modules : ModuleMap) (query : Value) : Except BuildError SourceLocation := do
  modules.locate (← ModuleName.ofValue query)

def asMapping (modules : ModuleMap) : OrderedMap Value Value :=
  ⟨modules.locations.toList.map fun entry => (.name entry.1, .location entry.2)⟩

section

variable {m : OrderedMap Value Value} {modules : ModuleMap} {n : ModuleName} {query : Value}

theorem ofMapping_eq_ok_iff :
    ModuleMap.ofMapping m = .ok modules ↔
      ∃ read, ModuleMap.readPairs m.toList = .ok read ∧ modules = ⟨.ofList read⟩ := by
  unfold ModuleMap.ofMapping
  cases ModuleMap.readPairs m.toList <;> simp [bind, Except.bind, pure, Except.pure, eq_comm]

theorem ofMapping_eq_error_iff {e : BuildError} :
    ModuleMap.ofMapping m = .error e ↔ ModuleMap.readPairs m.toList = .error e := by
  unfold ModuleMap.ofMapping
  cases ModuleMap.readPairs m.toList <;> simp [bind, Except.bind, pure, Except.pure]

theorem locationOf_of_spells (h : Spells query n) :
    locationOf modules query = modules.locate n := by
  rw [locationOf, ofValue_eq_ok_iff.mpr h]
  rfl

theorem locate_eq_ok_iff {l : SourceLocation} :
    modules.locate n = .ok l ↔ modules.locations.get? n = some l := by
  unfold ModuleMap.locate
  cases modules.locations.get? n <;> simp

theorem locate_eq_error_iff {e : BuildError} :
    modules.locate n = .error e ↔ e = .unknownModule n ∧ modules.locations.get? n = none := by
  unfold ModuleMap.locate
  cases modules.locations.get? n <;> simp [eq_comm]

theorem ofMapping_asMapping (h : modules.locations.keys.Nodup) :
    ModuleMap.ofMapping (asMapping modules) = .ok modules := by
  have hread : ModuleMap.readPairs (asMapping modules).toList = .ok modules.locations.toList := by
    rw [readPairs_eq_ok_iff, asMapping, List.forall₂_map_left_iff, List.forall₂_same]
    exact fun entry _ => ⟨.name entry.1, rfl⟩
  exact ofMapping_eq_ok_iff.mpr ⟨_, hread, by rw [OrderedMap.ofList_toList h]⟩

end

/-- Reading a module map fails exactly if an entry has no name of a module or no location,
and then for the first of these. Otherwise the map has the modules in the order in which they
were first named; every spelling of a name finds the location of the last entry for its
module, or finds that there is no entry for it; and the map reads back as itself. -/
theorem moduleMap_follows_entries (m : OrderedMap Value Value) :
    ((∃ e, ModuleMap.ofMapping m = .error e) ↔
        ∃ entry ∈ m.toList, (¬ ∃ n, Spells entry.1 n) ∨
          ¬ ∃ l, SourceLocation.ofValue entry.2 = .ok l) ∧
      (∀ e, ModuleMap.ofMapping m = .error e ↔
        ∃ entry, IsFirst (fun entry => ¬ IsReadable entry) m.toList entry ∧ HasFault entry e) ∧
      ∀ modules, ModuleMap.ofMapping m = .ok modules →
        (∃ names, List.Forall₂ (fun entry n => Spells entry.1 n) m.toList names ∧
          modules.locations.keys = names.eraseDups) ∧
        (∀ query n, Spells query n →
          (∀ l, locationOf modules query = .ok l ↔
            ∃ entry, IsLast (fun entry => Spells entry.1 n) m.toList entry ∧
              SourceLocation.ofValue entry.2 = .ok l) ∧
          ∀ e, locationOf modules query = .error e ↔
            e = .unknownModule n ∧ ∀ entry ∈ m.toList, ¬ Spells entry.1 n) ∧
        ModuleMap.ofMapping (asMapping modules) = .ok modules := by
  have herror : ∀ e, ModuleMap.ofMapping m = .error e ↔ ∃ entry,
      IsFirst (fun entry => ¬ IsReadable entry) m.toList entry ∧ HasFault entry e := fun e => by
    rw [ofMapping_eq_error_iff, readPairs_eq_error_iff]
  refine ⟨?_, herror, ?_⟩
  · have hfails : (∃ e, ModuleMap.ofMapping m = .error e) ↔
        ∃ entry ∈ m.toList, ¬ IsReadable entry := by
      rw [← exists_isFirst_iff]
      constructor
      · rintro ⟨e, he⟩
        obtain ⟨entry, hfirst, _⟩ := (herror e).mp he
        exact ⟨entry, hfirst⟩
      · rintro ⟨entry, hfirst⟩
        obtain ⟨e, hfault⟩ := not_isReadable_iff.mp hfirst.holds
        exact ⟨e, (herror e).mpr ⟨entry, hfirst, hfault⟩⟩
    simpa only [IsReadable, not_and_or] using hfails
  · intro modules hmodules
    obtain ⟨read, hread, rfl⟩ := ofMapping_eq_ok_iff.mp hmodules
    refine ⟨⟨_, names_of_readPairs hread, OrderedMap.keys_ofList read⟩, ?_,
      ofMapping_asMapping (OrderedMap.nodup_keys_ofList read)⟩
    intro query n hquery
    rw [locationOf_of_spells hquery]
    refine ⟨fun l => ?_, fun e => ?_⟩
    · rw [locate_eq_ok_iff, get?_eq_some_iff_of_readPairs hread]
    · rw [locate_eq_error_iff, get?_eq_none_iff_of_readPairs hread]

def smallEntries : List (Value × Value) :=
  [(.text " A", .text "src/A.purs"), (.text "B", .policy .never),
    (.name alpha, .location (.governed .always))]

def smallMap : ModuleMap :=
  ⟨⟨[(alpha, .governed .always), (beta, .governed .never)]⟩⟩

def absent : ModuleName := ⟨"Z", by decide, by decide⟩

theorem moduleMap_follows_entries_small :
    ModuleMap.ofMapping ⟨smallEntries⟩ = .ok smallMap ∧
      locationOf smallMap (.text "A ") = .ok (.governed .always) ∧
      locationOf smallMap (.text "Z") = .error (.unknownModule absent) ∧
      ModuleMap.ofMapping (asMapping smallMap) = .ok smallMap ∧
      ModuleMap.ofMapping ⟨(.text "A..B", .null) :: smallEntries⟩ =
        .error (.moduleName (.emptySegment "A..B")) := by
  have hread : ModuleMap.ofMapping ⟨smallEntries⟩ = .ok smallMap :=
    answers_iff.mp (by decide)
  obtain ⟨_, _, hmap⟩ := moduleMap_follows_entries ⟨smallEntries⟩
  obtain ⟨_, hlocation, hagain⟩ := hmap smallMap hread
  refine ⟨hread, ?_, ?_, hagain, ?_⟩
  · refine ((hlocation (.text "A ") alpha (by decide)).1 _).mpr
      ⟨(.name alpha, .location (.governed .always)), ?_, rfl⟩
    exact ⟨smallEntries.take 2, [], rfl, .name alpha, by simp⟩
  · exact ((hlocation (.text "Z") absent (by decide)).2 _).mpr ⟨rfl, by decide⟩
  · obtain ⟨_, hfirst, _⟩ := moduleMap_follows_entries ⟨(.text "A..B", .null) :: smallEntries⟩
    have hfault : HasFault (.text "A..B", .null) (.moduleName (.emptySegment "A..B")) :=
      .inl rfl
    exact (hfirst _).mpr
      ⟨_, ⟨[], smallEntries, rfl, not_isReadable_iff.mpr ⟨_, hfault⟩, by simp⟩, hfault⟩

end Rebuild.Proofs.ModuleLocations
