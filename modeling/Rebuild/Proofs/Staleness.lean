import Rebuild.Project
import Rebuild.Proofs.Growth

namespace Rebuild.Proofs.Staleness

open Rebuild.FileTree
open Rebuild.Proofs.PathNormal
open Rebuild.Proofs.Lookup
open Rebuild.Proofs.Growth

theorem timestamp?_eq_some_iff {t : FileTree} {p : Path} {s : Timestamp} :
    t.timestamp? p = .ok (some s) ↔
      ∃ l content modified, t.resolve p = .ok l ∧
        t.get? l = some (.file content modified) ∧ modified.timestamp = s := by
  constructor
  · intro h
    unfold timestamp? at h
    split at h
    · cases h
    · rename_i content modified hprobe
      obtain ⟨l, hl, hentry⟩ := probe_eq_some_iff.mp hprobe
      simp only [Except.ok.injEq, Option.some.injEq] at h
      exact ⟨l, content, modified, hl, hentry, h⟩
    · cases h
  · rintro ⟨l, content, modified, hl, hentry, rfl⟩
    simp [timestamp?, probe_eq_some_iff.mpr ⟨l, hl, hentry⟩]

theorem timestamp?_of_fits (t : FileTree) {p : Path} (hfits : Fits p) :
    ∃ s?, t.timestamp? p = .ok s? := by
  obtain ⟨e?, he⟩ := exists_probe t hfits
  unfold timestamp?
  rw [he]
  split
  · rename_i h
    cases h
  · exact ⟨_, rfl⟩
  · exact ⟨_, rfl⟩

theorem timestamp?_of_apart {now : MTime} {D W : Location → Prop} {t t' : FileTree}
    (ht : Evolves now D W t t') {i : Path} (hi : IsStraight i) (hfits : Fits i)
    (hW : ¬ W (placeFrom t.current i)) : t'.timestamp? i = t.timestamp? i := by
  unfold FileTree.timestamp?
  rw [probe_of_fits t hi hfits, probe_of_fits t' hi hfits, ht.current]
  by_cases hnul : i.normalize.hasNul = true
  · simp [hnul]
  · simp only [if_neg hnul]
    rcases ht.entry (placeFrom t.current i) with hsame | ⟨_, hnone, hdir⟩ | ⟨hl, _⟩
    · rw [hsame]
    · rw [hnone, hdir]
    · exact absurd hl hW

/-- A timestamp that is read after some writes was there before, if none of them was to
that path. -/
theorem timestamp?_before {now : MTime} {D W : Location → Prop} {t t' : FileTree}
    (ht : Evolves now D W t t') {q : Path} (hq : IsStraight q)
    (hW : ¬ W (placeFrom t.current q)) {s? : Option Timestamp}
    (h : t'.timestamp? q = .ok s?) : t.timestamp? q = .ok s? := by
  cases hl' : t'.resolve q with
  | ok l => rw [← timestamp?_of_apart ht hq (fits_of_resolve hq hl') hW, h]
  | error fault =>
      have hshort : fault ≠ .refused .nameTooLong := by
        rintro rfl
        simp [FileTree.timestamp?, probe_eq, hl'] at h
      have hnone : s? = none := by
        rcases resolve_fault hl' with rfl | rfl | rfl | rfl <;>
          simp_all [FileTree.timestamp?, probe_eq]
      cases hl : t.resolve q with
      | ok l => simp [resolve_below ht.below hl] at hl'
      | error fault₀ =>
          have hshort₀ : fault₀ ≠ .refused .nameTooLong := by
            rintro rfl
            rw [resolve_error_below ht.below (by simp) hl, Except.error.injEq] at hl'
            exact hshort hl'.symm
          rw [hnone]
          rcases resolve_fault hl with rfl | rfl | rfl | rfl <;>
            simp_all [FileTree.timestamp?, probe_eq]

theorem timestamps_eq_ok {t : FileTree} {paths : List Path}
    {stamps : List (Option Timestamp)} (h : t.timestamps paths = .ok stamps) :
    (∀ q ∈ paths, ∃ s?, t.timestamp? q = .ok s?) ∧
      ∀ s, some s ∈ stamps ↔ ∃ q ∈ paths, t.timestamp? q = .ok (some s) := by
  induction paths generalizing stamps with
  | nil =>
      simp only [timestamps, Except.ok.injEq] at h
      subst h
      simp
  | cons q paths ih =>
      cases hq : t.timestamp? q with
      | error e => simp [timestamps, hq, bind, Except.bind] at h
      | ok s? =>
          cases hrest : t.timestamps paths with
          | error e => simp [timestamps, hq, hrest, bind, Except.bind] at h
          | ok rest =>
              simp only [timestamps, hq, hrest, bind, Except.bind, pure, Except.pure,
                Except.ok.injEq] at h
              subst h
              obtain ⟨hpresent, hmem⟩ := ih hrest
              constructor
              · intro r hr
                rcases List.mem_cons.mp hr with rfl | hr
                · exact ⟨s?, hq⟩
                · exact hpresent r hr
              · intro s
                rw [List.mem_cons, hmem]
                constructor
                · rintro (rfl | ⟨r, hr, hs⟩)
                  · exact ⟨q, by simp, hq⟩
                  · exact ⟨r, by simp [hr], hs⟩
                · rintro ⟨r, hr, hs⟩
                  rcases List.mem_cons.mp hr with rfl | hr
                  · rw [hq, Except.ok.injEq] at hs
                    exact .inl hs.symm
                  · exact .inr ⟨r, hr, hs⟩

theorem exists_timestamps {t : FileTree} {paths : List Path}
    (h : ∀ q ∈ paths, ∃ s?, t.timestamp? q = .ok s?) :
    ∃ stamps, t.timestamps paths = .ok stamps := by
  induction paths with
  | nil => exact ⟨[], rfl⟩
  | cons q paths ih =>
      obtain ⟨s?, hs⟩ := h q (by simp)
      obtain ⟨stamps, hstamps⟩ := ih fun r hr => h r (by simp [hr])
      exact ⟨s? :: stamps, by simp [timestamps, hs, hstamps, bind, Except.bind, pure, Except.pure]⟩

theorem timestamps_mono {t u : FileTree} {paths : List Path}
    {stamps : List (Option Timestamp)}
    (hsame : ∀ q ∈ paths, ∀ s?, t.timestamp? q = .ok s? → u.timestamp? q = .ok s?)
    (h : t.timestamps paths = .ok stamps) : u.timestamps paths = .ok stamps := by
  induction paths generalizing stamps with
  | nil => exact h
  | cons q paths ih =>
      cases hq : t.timestamp? q with
      | error e => simp [timestamps, hq, bind, Except.bind] at h
      | ok s? =>
          cases hrest : t.timestamps paths with
          | error e => simp [timestamps, hq, hrest, bind, Except.bind] at h
          | ok rest =>
              have hq' := hsame q (by simp) s? hq
              have hrest' := ih (fun r hr => hsame r (by simp [hr])) hrest
              simpa [timestamps, hq, hrest, hq', hrest', bind, Except.bind] using h

theorem timestampsWhilePresent_mono {t u : FileTree} {paths : List Path}
    {stamps : List (Option Timestamp)}
    (hsame : ∀ q ∈ paths, ∀ s?, t.timestamp? q = .ok s? → u.timestamp? q = .ok s?)
    (h : t.timestampsWhilePresent paths = .ok stamps) :
    u.timestampsWhilePresent paths = .ok stamps := by
  induction paths generalizing stamps with
  | nil => exact h
  | cons q paths ih =>
      cases hq : t.timestamp? q with
      | error e => simp [timestampsWhilePresent, hq, bind, Except.bind] at h
      | ok s? =>
          have hq' := hsame q (by simp) s? hq
          cases s? with
          | none => simpa [timestampsWhilePresent, hq, hq', bind, Except.bind] using h
          | some s =>
              cases hrest : t.timestampsWhilePresent paths with
              | error e => simp [timestampsWhilePresent, hq, hrest, bind, Except.bind] at h
              | ok rest =>
                  have hrest' := ih (fun r hr => hsame r (by simp [hr])) hrest
                  simpa [timestampsWhilePresent, hq, hrest, hq', hrest', bind, Except.bind]
                    using h

theorem min_eq (s c : Timestamp) : min s c = if s ≤ c then s else c :=
  rfl

theorem min_spec {s c b : Timestamp} (h : min s c = b) :
    b ≤ s ∧ b ≤ c ∧ (b = s ∨ b = c) := by
  rw [min_eq] at h
  subst h
  split
  · rename_i hle
    exact ⟨Int.le_refl _, hle, .inl rfl⟩
  · rename_i hlt
    simp only [Timestamp.le_iff] at hlt
    exact ⟨by simp only [Timestamp.le_iff]; omega, Int.le_refl _, .inr rfl⟩

theorem max_eq (s c : Timestamp) : max s c = if s ≤ c then c else s :=
  rfl

theorem timestampsWhilePresent_cons {t : FileTree} {q : Path} {paths : List Path}
    {s : Timestamp} (hq : t.timestamp? q = .ok (some s)) :
    t.timestampsWhilePresent (q :: paths) =
      (t.timestampsWhilePresent paths).map (some s :: ·) := by
  simp only [timestampsWhilePresent, hq, bind, Except.bind]
  cases t.timestampsWhilePresent paths <;> rfl

theorem earliestOfAll_cons (s : Timestamp) {stamps : List (Option Timestamp)}
    (h : stamps ≠ []) :
    Timestamp.earliestOfAll (some s :: stamps) =
      (Timestamp.earliestOfAll stamps).map (min s) := by
  cases stamps with
  | nil => exact absurd rfl h
  | cons s? stamps => rfl

theorem timestampsWhilePresent_ne_nil {t : FileTree} {paths : List Path}
    {stamps : List (Option Timestamp)} (hne : paths ≠ [])
    (h : t.timestampsWhilePresent paths = .ok stamps) : stamps ≠ [] := by
  cases paths with
  | nil => exact absurd rfl hne
  | cons q paths =>
      rintro rfl
      cases hq : t.timestamp? q with
      | error e => simp [timestampsWhilePresent, hq, bind, Except.bind] at h
      | ok s? =>
          cases s? with
          | none =>
              simp [timestampsWhilePresent, hq, bind, Except.bind, pure, Except.pure] at h
          | some s =>
              rw [timestampsWhilePresent_cons hq] at h
              cases hrest : t.timestampsWhilePresent paths <;> simp [hrest, Except.map] at h

theorem earliest_spec {t : FileTree} {paths : List Path} {stamps : List (Option Timestamp)}
    {b : Timestamp} (h : t.timestampsWhilePresent paths = .ok stamps)
    (hb : Timestamp.earliestOfAll stamps = some b) :
    (∀ q ∈ paths, ∃ s, t.timestamp? q = .ok (some s) ∧ b ≤ s) ∧
      ∃ q ∈ paths, t.timestamp? q = .ok (some b) := by
  induction paths generalizing stamps b with
  | nil =>
      simp only [timestampsWhilePresent, Except.ok.injEq] at h
      subst h
      simp [Timestamp.earliestOfAll] at hb
  | cons q paths ih =>
      cases hq : t.timestamp? q with
      | error e => simp [timestampsWhilePresent, hq, bind, Except.bind] at h
      | ok s? =>
          cases s? with
          | none =>
              simp only [timestampsWhilePresent, hq, bind, Except.bind, pure, Except.pure,
                Except.ok.injEq] at h
              subst h
              simp [Timestamp.earliestOfAll] at hb
          | some s =>
              rw [timestampsWhilePresent_cons hq] at h
              cases hrest : t.timestampsWhilePresent paths with
              | error e => simp [hrest, Except.map] at h
              | ok rest =>
                  simp only [hrest, Except.map, Except.ok.injEq] at h
                  subst h
                  by_cases hpaths : paths = []
                  · subst hpaths
                    simp only [timestampsWhilePresent, Except.ok.injEq] at hrest
                    subst hrest
                    simp only [Timestamp.earliestOfAll, Option.some.injEq] at hb
                    subst hb
                    simp [hq]
                  · rw [earliestOfAll_cons s (timestampsWhilePresent_ne_nil hpaths hrest),
                      Option.map_eq_some_iff] at hb
                    obtain ⟨c, hc, hmin⟩ := hb
                    obtain ⟨hall, r, hr, hrc⟩ := ih hrest hc
                    have hbs := min_spec hmin
                    constructor
                    · intro q' hq'
                      rcases List.mem_cons.mp hq' with rfl | hq'
                      · exact ⟨s, hq, hbs.1⟩
                      · obtain ⟨s', hs', hcs⟩ := hall q' hq'
                        exact ⟨s', hs', Int.le_trans hbs.2.1 hcs⟩
                    · rcases hbs.2.2 with rfl | rfl
                      · exact ⟨q, by simp, hq⟩
                      · exact ⟨r, by simp [hr], hrc⟩

theorem exists_earliest {t : FileTree} {paths : List Path} (hne : paths ≠ [])
    (h : ∀ q ∈ paths, ∃ s, t.timestamp? q = .ok (some s)) :
    ∃ stamps b, t.timestampsWhilePresent paths = .ok stamps ∧
      Timestamp.earliestOfAll stamps = some b := by
  induction paths with
  | nil => exact absurd rfl hne
  | cons q paths ih =>
      obtain ⟨s, hs⟩ := h q (by simp)
      rw [timestampsWhilePresent_cons hs]
      by_cases hpaths : paths = []
      · subst hpaths
        exact ⟨[some s], s, rfl, rfl⟩
      · obtain ⟨rest, b, hrest, hb⟩ := ih hpaths fun r hr => h r (by simp [hr])
        refine ⟨some s :: rest, min s b, by simp [hrest, Except.map], ?_⟩
        rw [earliestOfAll_cons s (timestampsWhilePresent_ne_nil hpaths hrest), hb]
        rfl

theorem latest_lt_iff {stamps : List (Option Timestamp)} {b : Timestamp} :
    (∃ u, Timestamp.latest stamps = some u ∧ b < u) ↔ ∃ s, some s ∈ stamps ∧ b < s := by
  induction stamps with
  | nil => simp [Timestamp.latest]
  | cons s? stamps ih =>
      cases s? with
      | none => simpa [Timestamp.latest] using ih
      | some s =>
          cases hrest : Timestamp.latest stamps with
          | none =>
              simp only [hrest, reduceCtorEq, false_and, exists_false, false_iff] at ih
              simp only [Timestamp.latest, hrest, Option.some.injEq, exists_eq_left',
                List.mem_cons]
              constructor
              · exact fun hs => ⟨s, .inl rfl, hs⟩
              · rintro ⟨s', rfl | hs', hlt⟩
                · exact hlt
                · exact absurd ⟨s', hs', hlt⟩ ih
          | some u =>
              simp only [hrest, Option.some.injEq, exists_eq_left'] at ih
              simp only [Timestamp.latest, hrest, Option.some.injEq, exists_eq_left',
                List.mem_cons, max_eq]
              constructor
              · intro hlt
                split at hlt
                · obtain ⟨s', hs', hlt'⟩ := ih.mp hlt
                  exact ⟨s', .inr hs', hlt'⟩
                · exact ⟨s, .inl rfl, hlt⟩
              · rintro ⟨s', hs', hlt⟩
                have hbound : b < s ∨ b < u := by
                  rcases hs' with rfl | hs'
                  · exact .inl hlt
                  · exact .inr (ih.mpr ⟨s', hs', hlt⟩)
                simp only [Timestamp.lt_iff, Timestamp.le_iff] at hbound ⊢
                split <;> omega

theorem outdates_newest_iff {stamps : List (Option Timestamp)} {b : Timestamp} :
    (InputAge.newest (Timestamp.latest stamps)).outdates b = true ↔
      ∃ s, some s ∈ stamps ∧ b < s := by
  rw [← latest_lt_iff]
  cases Timestamp.latest stamps <;> simp [InputAge.outdates]

section

variable {p : Project} {t : FileTree} {n : ModuleName}

theorem outputTimestamp_eq_ok_iff {o? : Option Timestamp} :
    p.outputTimestamp t n = .ok o? ↔
      ∃ a stamps, p.artifacts n = .ok a ∧ t.timestampsWhilePresent a.primary = .ok stamps ∧
        Timestamp.earliestOfAll stamps = o? := by
  unfold Project.outputTimestamp
  cases p.artifacts n with
  | error e => simp [bind, Except.bind]
  | ok a =>
      cases hstamps : t.timestampsWhilePresent a.primary with
      | error e => simp [bind, Except.bind, hstamps]
      | ok stamps => simp [bind, Except.bind, pure, Except.pure, hstamps]

theorem needsRebuild_eq_ok_iff {b : Bool} :
    p.needsRebuild t n = .ok b ↔
      ∃ location o?, p.modules.locate n = .ok location ∧ p.outputTimestamp t n = .ok o? ∧
        ((o? = none ∧ b = true) ∨ ∃ written age, o? = some written ∧
          p.inputAgeAt t location = .ok age ∧ age.outdates written = b) := by
  unfold Project.needsRebuild
  cases p.modules.locate n with
  | error e => simp [bind, Except.bind]
  | ok location =>
      cases p.outputTimestamp t n with
      | error e => simp [bind, Except.bind]
      | ok o? =>
          cases o? with
          | none => simp [bind, Except.bind, pure, Except.pure, eq_comm]
          | some written =>
              cases hage : p.inputAgeAt t location with
              | error e => simp [bind, Except.bind, hage]
              | ok age => simp [bind, Except.bind, pure, Except.pure, hage]

theorem inputAgeAt_file_eq_ok_iff {source : Path} {age : InputAge} :
    p.inputAgeAt t (.file source) = .ok age ↔
      ∃ inputs stamps, p.inputs source = .ok inputs ∧ t.timestamps inputs = .ok stamps ∧
        age = .newest (Timestamp.latest stamps) := by
  unfold Project.inputAgeAt
  cases hinputs : p.inputs source with
  | error e => simp [bind, Except.bind, hinputs]
  | ok inputs =>
      cases hstamps : t.timestamps inputs with
      | error e => simp [bind, Except.bind, hinputs, hstamps]
      | ok stamps => simp [bind, Except.bind, pure, Except.pure, hinputs, hstamps, eq_comm]

def IsUpToDate (p : Project) (t : FileTree) (a : Artifacts) : SourceLocation → Prop
  | .governed policy => policy ≠ .always
  | .file source =>
    ∃ inputs, p.inputs source = .ok inputs ∧ (∀ i ∈ inputs, ∃ s?, t.timestamp? i = .ok s?) ∧
      ∀ i ∈ inputs, ∀ q ∈ a.primary, ∀ s o, t.timestamp? i = .ok (some s) →
        t.timestamp? q = .ok (some o) → s ≤ o

theorem isUpToDate_iff {a : Artifacts} {location : SourceLocation} {written : Timestamp}
    (hall : ∀ q ∈ a.primary, ∃ s, t.timestamp? q = .ok (some s) ∧ written ≤ s)
    (hsome : ∃ q ∈ a.primary, t.timestamp? q = .ok (some written)) :
    IsUpToDate p t a location ↔
      ∃ age, p.inputAgeAt t location = .ok age ∧ age.outdates written = false := by
  cases location with
  | governed policy => simp [IsUpToDate, Project.inputAgeAt, InputAge.outdates]
  | file source =>
      constructor
      · rintro ⟨inputs, hinputs, hpresent, hle⟩
        obtain ⟨stamps, hstamps⟩ := exists_timestamps hpresent
        refine ⟨_, inputAgeAt_file_eq_ok_iff.mpr ⟨inputs, stamps, hinputs, hstamps, rfl⟩, ?_⟩
        rw [Bool.eq_false_iff]
        intro hout
        obtain ⟨s, hs, hlt⟩ := outdates_newest_iff.mp hout
        obtain ⟨i, hi, his⟩ := ((timestamps_eq_ok hstamps).2 s).mp hs
        obtain ⟨q, hq, hqw⟩ := hsome
        have := hle i hi q hq s written his hqw
        simp only [Timestamp.lt_iff, Timestamp.le_iff] at hlt this
        omega
      · rintro ⟨age, hage, hout⟩
        obtain ⟨inputs, stamps, hinputs, hstamps, rfl⟩ := inputAgeAt_file_eq_ok_iff.mp hage
        obtain ⟨hpresent, hmem⟩ := timestamps_eq_ok hstamps
        refine ⟨inputs, hinputs, hpresent, ?_⟩
        intro i hi q hq s o his hqo
        obtain ⟨o', ho', hwritten⟩ := hall q hq
        have heq : o = o' := by simpa [hqo] using ho'
        have hnot : ¬ written < s := by
          intro hlt
          have := outdates_newest_iff.mpr ⟨s, (hmem s).mpr ⟨i, hi, his⟩, hlt⟩
          simp [hout] at this
        subst heq
        simp only [Timestamp.lt_iff, Timestamp.le_iff] at hnot hwritten ⊢
        omega

/-- A module is fresh when all its primary outputs are there and none is outdated. -/
theorem needsRebuild_eq_false_iff :
    p.needsRebuild t n = .ok false ↔
      ∃ location a, p.modules.locate n = .ok location ∧ p.artifacts n = .ok a ∧
        (∀ q ∈ a.primary, ∃ s, t.timestamp? q = .ok (some s)) ∧
        IsUpToDate p t a location := by
  constructor
  · intro h
    obtain ⟨location, o?, hlocation, houtput, hcase⟩ := needsRebuild_eq_ok_iff.mp h
    rcases hcase with ⟨_, hfalse⟩ | ⟨written, age, rfl, hage, hout⟩
    · cases hfalse
    · obtain ⟨a, stamps, ha, hstamps, hearliest⟩ := outputTimestamp_eq_ok_iff.mp houtput
      obtain ⟨hall, hsome⟩ := earliest_spec hstamps hearliest
      refine ⟨location, a, hlocation, ha, ?_, ?_⟩
      · intro q hq
        obtain ⟨s, hs, _⟩ := hall q hq
        exact ⟨s, hs⟩
      · exact (isUpToDate_iff hall hsome).mpr ⟨age, hage, hout⟩
  · rintro ⟨location, a, hlocation, ha, hpresent, hdate⟩
    obtain ⟨stamps, written, hstamps, hearliest⟩ :=
      exists_earliest (by simp [Artifacts.primary]) hpresent
    obtain ⟨hall, hsome⟩ := earliest_spec hstamps hearliest
    obtain ⟨age, hage, hout⟩ := (isUpToDate_iff hall hsome).mp hdate
    exact needsRebuild_eq_ok_iff.mpr ⟨location, some written, hlocation,
      outputTimestamp_eq_ok_iff.mpr ⟨a, stamps, ha, hstamps, hearliest⟩,
      .inr ⟨written, age, rfl, hage, hout⟩⟩

/-- Staleness is decided by the timestamps at the primary outputs and the inputs. -/
theorem needsRebuild_mono {u : FileTree} {b : Bool}
    (houtputs : ∀ a, p.artifacts n = .ok a → ∀ q ∈ a.primary, ∀ s?,
      t.timestamp? q = .ok s? → u.timestamp? q = .ok s?)
    (hinputs : ∀ source inputs, p.modules.locate n = .ok (.file source) →
      p.inputs source = .ok inputs → ∀ i ∈ inputs, ∀ s?,
        t.timestamp? i = .ok s? → u.timestamp? i = .ok s?)
    (h : p.needsRebuild t n = .ok b) : p.needsRebuild u n = .ok b := by
  obtain ⟨location, o?, hlocation, houtput, hcase⟩ := needsRebuild_eq_ok_iff.mp h
  obtain ⟨a, stamps, ha, hstamps, hearliest⟩ := outputTimestamp_eq_ok_iff.mp houtput
  have houtput' : p.outputTimestamp u n = .ok o? :=
    outputTimestamp_eq_ok_iff.mpr
      ⟨a, stamps, ha, timestampsWhilePresent_mono (houtputs a ha) hstamps, hearliest⟩
  refine needsRebuild_eq_ok_iff.mpr ⟨location, o?, hlocation, houtput', ?_⟩
  rcases hcase with hnone | ⟨written, age, hsome, hage, hout⟩
  · exact .inl hnone
  · refine .inr ⟨written, age, hsome, ?_, hout⟩
    cases location with
    | governed policy => exact hage
    | file source =>
        obtain ⟨inputs, stamps', hfound, hstamps', rfl⟩ := inputAgeAt_file_eq_ok_iff.mp hage
        exact inputAgeAt_file_eq_ok_iff.mpr ⟨inputs, stamps', hfound,
          timestamps_mono (hinputs source inputs hlocation hfound) hstamps', rfl⟩

end

end Rebuild.Proofs.Staleness
