import Rebuild.Proofs.FileNames
import Rebuild.Proofs.PrimaryWrites

namespace Rebuild.Proofs.OutputLines

open Rebuild.Declarations
open Rebuild.Proofs.PathNormal
open Rebuild.Proofs.Layout
open Rebuild.Proofs.FileNames
open Rebuild.Proofs.PrimaryWrites

theorem isHeaderEnd_eq_true_iff {d : Content} : isHeaderEnd d = true ↔ d = .headerEnd := by
  rcases d with v | t | t
  · cases v <;> simp [isHeaderEnd]
  · simp [isHeaderEnd]
  · simp [isHeaderEnd]

section

variable {d : Content} {ds : List Content}

theorem split_cons (hd : isHeaderEnd d = false) :
    split (d :: ds) = (split ds).map fun sides => (d :: sides.1, sides.2) := by
  simp only [split, List.takeWhile_cons, List.dropWhile_cons, hd, Bool.not_false, if_true]
  cases ds.dropWhile fun d => !isHeaderEnd d with
  | nil => rfl
  | cons marker rest => by_cases h : rest.any isHeaderEnd = true <;> simp [h, Except.map]

theorem split_headerEnd (ds : List Content) :
    split (.headerEnd :: ds) =
      if ds.any isHeaderEnd then .error .repeatedHeaderEnd else .ok ([], ds) :=
  rfl

theorem split_eq_error_iff {e : BuildError} :
    split ds = .error e ↔ e = .repeatedHeaderEnd ∧ 2 ≤ ds.countP isHeaderEnd := by
  induction ds with
  | nil => simp [split]
  | cons d ds ih =>
      cases hd : isHeaderEnd d with
      | false =>
          rw [split_cons hd, List.countP_cons_of_neg (by simp [hd]), ← ih]
          cases split ds <;> simp [Except.map]
      | true =>
          obtain rfl := isHeaderEnd_eq_true_iff.mp hd
          rw [split_headerEnd, List.countP_cons_of_pos hd]
          have hany : ds.any isHeaderEnd = true ↔ 2 ≤ ds.countP isHeaderEnd + 1 := by
            rw [List.any_eq_true, ← List.countP_pos_iff (p := isHeaderEnd)]
            omega
          by_cases h : ds.any isHeaderEnd = true
          · rw [if_pos h]
            simp [hany.mp h, eq_comm]
          · rw [if_neg h]
            simp [show ¬ 2 ≤ ds.countP isHeaderEnd + 1 from fun hle => h (hany.mpr hle)]

/-- What stands before the marker and what stands after it. Without a marker all stand
before it. -/
def AreSides (ds before after : List Content) : Prop :=
  (∀ d ∈ before ++ after, d ≠ .headerEnd) ∧
    (ds = before ++ [.headerEnd] ++ after ∨ ds = before ∧ after = [])

theorem AreSides.cons {before after : List Content} (h : AreSides ds before after)
    (hd : isHeaderEnd d = false) : AreSides (d :: ds) (d :: before) after := by
  have hne : d ≠ .headerEnd := fun heq => by simp [isHeaderEnd_eq_true_iff.mpr heq] at hd
  refine ⟨List.forall_mem_cons.mpr ⟨hne, h.1⟩, ?_⟩
  rcases h.2 with rfl | ⟨rfl, rfl⟩
  · exact .inl rfl
  · exact .inr ⟨rfl, rfl⟩

theorem areSides_of_split {before after : List Content} (h : split ds = .ok (before, after)) :
    AreSides ds before after := by
  induction ds generalizing before after with
  | nil =>
      cases h
      exact ⟨by simp, .inr ⟨rfl, rfl⟩⟩
  | cons d ds ih =>
      cases hd : isHeaderEnd d with
      | false =>
          rw [split_cons hd] at h
          cases hsplit : split ds with
          | error e =>
              rw [hsplit] at h
              cases h
          | ok sides =>
              rw [hsplit] at h
              cases h
              exact (ih hsplit).cons hd
      | true =>
          obtain rfl := isHeaderEnd_eq_true_iff.mp hd
          rw [split_headerEnd] at h
          split at h
          · cases h
          · rename_i hnone
            cases h
            refine ⟨fun x hx heq => hnone ?_, .inl rfl⟩
            exact List.any_eq_true.mpr ⟨x, hx, isHeaderEnd_eq_true_iff.mpr heq⟩

section

variable {before after : List Content}

theorem AreSides.mem (h : AreSides ds before after) {x : Content} (hx : x ∈ before ++ after) :
    x ∈ ds := by
  rcases h.2 with rfl | ⟨rfl, rfl⟩
  · rcases List.mem_append.mp hx with hx | hx <;> simp [hx]
  · simpa using hx

theorem AreSides.countP_eq_zero (h : AreSides ds before after) :
    before.countP isHeaderEnd = 0 := by
  refine List.countP_eq_zero.mpr fun d hd heq => ?_
  exact h.1 d (List.mem_append_left _ hd) (isHeaderEnd_eq_true_iff.mp heq)

theorem AreSides.append_eq (h : AreSides ds before after) (hone : ds.countP isHeaderEnd = 1) :
    before ++ [.headerEnd] ++ after = ds := by
  rcases h.2 with heq | ⟨rfl, _⟩
  · exact heq.symm
  · have hzero := h.countP_eq_zero
    omega

theorem AreSides.eq_of_countP_eq_zero (h : AreSides ds before after)
    (hzero : ds.countP isHeaderEnd = 0) : before = ds ∧ after = [] := by
  rcases h.2 with rfl | ⟨rfl, rfl⟩
  · simp [isHeaderEnd] at hzero
  · exact ⟨rfl, rfl⟩

theorem eq_headerPart_of_split (h : split ds = .ok (before, after)) : before = headerPart ds := by
  unfold split at h
  split at h
  · cases h
    rfl
  · split at h
    · cases h
    · cases h
      rfl

end

end

/-- What a module is rendered to: both sides in turn, with a banner if there is to be one. -/
theorem renderModule_eq_ok_iff {render : Renderer} {config : Config} {m : CompiledModule}
    {environment : Value} {texts : CodeText × CodeText} :
    renderModule render config m environment = .ok texts ↔
      ∃ before after header implementation, split m.declarations = .ok (before, after) ∧
        render before environment = .ok header ∧
        render after environment = .ok implementation ∧
        texts = (withBanner config header, withBanner config implementation) := by
  unfold renderModule
  rw [except_bind_eq_ok_iff]
  constructor
  · rintro ⟨⟨before, after⟩, hsplit, h⟩
    obtain ⟨header, hheader, h⟩ := except_bind_eq_ok_iff.mp h
    obtain ⟨implementation, himplementation, h⟩ := except_bind_eq_ok_iff.mp h
    cases h
    exact ⟨before, after, header, implementation, hsplit, hheader, himplementation, rfl⟩
  · rintro ⟨before, after, header, implementation, hsplit, hheader, himplementation, rfl⟩
    exact ⟨_, hsplit, by simp [hheader, himplementation, bind, Except.bind]; rfl⟩

/-- The text consists of the lines, each with a line end behind it and none in it. -/
def HasLines (text : CodeText) (lines : List CodeText) : Prop :=
  (∀ line ∈ lines, .char '\n' ∉ line.points) ∧
    text.points = lines.flatMap fun line => line.points ++ [.char '\n']

instance (text : CodeText) (lines : List CodeText) : Decidable (HasLines text lines) := by
  unfold HasLines
  infer_instance

section

variable {text line : CodeText} {lines : List CodeText}

theorem HasLines.cons (h : HasLines text lines) (hline : .char '\n' ∉ line.points) :
    HasLines (line ++ "\n" ++ text) (line :: lines) := by
  refine ⟨List.forall_mem_cons.mpr ⟨hline, h.1⟩, ?_⟩
  simp [h.2]

theorem hasLines_join (hne : lines ≠ []) (hlines : ∀ line ∈ lines, .char '\n' ∉ line.points) :
    HasLines (CodeText.join "\n" lines ++ "\n") lines := by
  refine ⟨hlines, ?_⟩
  clear hlines
  induction lines with
  | nil => exact absurd rfl hne
  | cons line lines ih =>
      by_cases hlast : lines = []
      · simp [hlast, CodeText.join]
      · have hrest := ih hlast
        rw [CodeText.points_append] at hrest
        rw [CodeText.join_cons _ _ hlast, List.flatMap_cons, ← hrest]
        simp

end

example : HasLines "a\n\n" ["a", ""] := by decide

/-- The declaration has a text. -/
inductive HasText : Content → CodeText → Prop
  | text (t : CodeText) : HasText (.text t) t
  | renderable (t : CodeText) : HasText (.renderable t) t
  | textValue (s : String) : HasText (.value (.text s)) s
  | renderableValue (s : String) : HasText (.value (.renderable s)) s

def IsLine (d : Content) : Prop :=
  ∃ t, HasText d t ∧ .char '\n' ∉ t.points

def lineOf : Content → CodeText
  | .text t | .renderable t => t
  | .value (.text s) | .value (.renderable s) => s
  | .value _ => ""

/-- The lines that some declarations give: one for each, or an empty line if there are none. -/
def bodyLines (ds : List Content) : List CodeText :=
  if ds.isEmpty then [""] else ds.map lineOf

def bannerLines (config : Config) : List CodeText :=
  if config.usePrefix then ["// " ++ config.banner] else []

section

variable {d : Content} {ds : List Content} {config : Config} {body : CodeText}
variable {lines : List CodeText}

theorem IsLine.text (h : IsLine d) : Declarations.text d = .ok (lineOf d) := by
  obtain ⟨t, htext, _⟩ := h
  cases htext <;> rfl

theorem IsLine.newline_not_mem (h : IsLine d) : .char '\n' ∉ (lineOf d).points := by
  obtain ⟨t, htext, ht⟩ := h
  cases htext <;> exact ht

theorem texts_of_isLine (h : ∀ d ∈ ds, IsLine d) : texts ds = .ok (ds.map lineOf) := by
  induction ds with
  | nil => rfl
  | cons d ds ih =>
      obtain ⟨hd, hds⟩ := List.forall_mem_cons.mp h
      rw [texts, hd.text, ih hds]
      rfl

theorem render_of_isLine (h : ∀ d ∈ ds, IsLine d) :
    render ds = .ok (CodeText.join "\n" (bodyLines ds)) := by
  rw [render, texts_of_isLine h]
  cases ds <;> rfl

theorem hasLines_body (h : ∀ d ∈ ds, IsLine d) :
    HasLines (CodeText.join "\n" (bodyLines ds) ++ "\n") (bodyLines ds) := by
  cases ds with
  | nil => exact hasLines_join (by simp [bodyLines]) (by simp [bodyLines])
  | cons d ds =>
      refine hasLines_join (by simp [bodyLines]) ?_
      have hbody : bodyLines (d :: ds) = (d :: ds).map lineOf := rfl
      rw [hbody, List.forall_mem_map]
      exact fun d hd => (h d hd).newline_not_mem

theorem hasLines_withBanner (htool : .char '\n' ∉ config.toolName.points)
    (hversion : .char '\n' ∉ config.version.points) (h : HasLines (body ++ "\n") lines) :
    HasLines (withBanner config body) (bannerLines config ++ lines) := by
  unfold withBanner bannerLines
  cases config.usePrefix with
  | false => simpa [HasLines] using h
  | true =>
      have hbanner : .char '\n' ∉ ("// " ++ config.banner : CodeText).points := by
        simp [Config.banner, htool, hversion]
      simpa [HasLines] using h.cons hbanner

end

/-- A split fails at a second marker and at nothing else, and all other declarations come out
in their order, those before the marker and those after it. If each has its text on one
line, both output files consist of the banner, where there is to be one, and of the lines of
their side. The header depends on nothing behind the marker, whatever renders it. -/
theorem outputs_keep_declarations (ds : List Content) :
    (∀ e, split ds = .error e ↔ e = .repeatedHeaderEnd ∧ 2 ≤ ds.countP isHeaderEnd) ∧
      (ds.countP isHeaderEnd = 1 → ∃ before after, split ds = .ok (before, after) ∧
        before ++ [.headerEnd] ++ after = ds) ∧
      (ds.countP isHeaderEnd = 0 → split ds = .ok (ds, [])) ∧
      ∀ (config : Config) (environment : Value) (m : CompiledModule), m.declarations = ds →
        (∀ before after, split ds = .ok (before, after) →
          (∀ d ∈ ds, d = .headerEnd ∨ IsLine d) →
          CodePoint.char '\n' ∉ config.toolName.points → .char '\n' ∉ config.version.points →
          ∃ header implementation,
            renderModule plainRenderer config m environment = .ok (header, implementation) ∧
            HasLines header (bannerLines config ++ bodyLines before) ∧
            HasLines implementation (bannerLines config ++ bodyLines after)) ∧
        ∀ (render : Renderer) (m' : CompiledModule) (texts texts' : CodeText × CodeText),
          headerPart m'.declarations = headerPart ds →
          renderModule render config m environment = .ok texts →
          renderModule render config m' environment = .ok texts' → texts'.1 = texts.1 := by
  refine ⟨fun e => split_eq_error_iff, fun hone => ?_, fun hnone => ?_, ?_⟩
  · have hsplit := split_of_countP (Nat.le_of_eq hone)
    exact ⟨_, _, hsplit, (areSides_of_split hsplit).append_eq hone⟩
  · have hle : ds.countP isHeaderEnd ≤ 1 := by omega
    have hsplit := split_of_countP hle
    obtain ⟨hbefore, hafter⟩ := (areSides_of_split hsplit).eq_of_countP_eq_zero hnone
    rw [hsplit, hbefore, hafter]
  · rintro config environment m rfl
    refine ⟨fun before after hsplit hlines htool hversion => ?_, ?_⟩
    · have hsides := areSides_of_split hsplit
      have hall : ∀ d ∈ before ++ after, IsLine d := fun d hd =>
        (hlines d (hsides.mem hd)).resolve_left (hsides.1 d hd)
      obtain ⟨hbefore, hafter⟩ := List.forall_mem_append.mp hall
      refine ⟨_, _, renderModule_eq_ok_iff.mpr ⟨before, after, _, _, hsplit,
        render_of_isLine hbefore, render_of_isLine hafter, rfl⟩, ?_, ?_⟩
      · exact hasLines_withBanner htool hversion (hasLines_body hbefore)
      · exact hasLines_withBanner htool hversion (hasLines_body hafter)
    · intro render m' texts texts' hsame h h'
      obtain ⟨before, _, header, _, hsplit, hheader, _, rfl⟩ := renderModule_eq_ok_iff.mp h
      obtain ⟨before', _, header', _, hsplit', hheader', _, rfl⟩ := renderModule_eq_ok_iff.mp h'
      obtain rfl : before = before' := by
        rw [eq_headerPart_of_split hsplit, eq_headerPart_of_split hsplit', hsame]
      rw [hheader, Except.ok.injEq] at hheader'
      rw [hheader']

def smallModule : CompiledModule where
  name := Runs.alpha
  declarations := [.text "// a", .renderable "int x;", .headerEnd, .text ""]
  foreign := []

def headerModule : CompiledModule :=
  { smallModule with declarations := [.text "// a", .renderable "int x;"] }

theorem outputs_keep_declarations_small :
    ∃ header implementation, renderModule plainRenderer .default smallModule .null =
        .ok (header, implementation) ∧
      HasLines header ["// Generated by pcc version 0.9.2", "// a", "int x;"] ∧
      HasLines implementation ["// Generated by pcc version 0.9.2", ""] ∧
      ∀ texts, renderModule plainRenderer .default headerModule .null = .ok texts →
        texts.1 = header := by
  obtain ⟨_, _, _, hrender⟩ := outputs_keep_declarations smallModule.declarations
  obtain ⟨hlines, hsame⟩ := hrender .default .null smallModule rfl
  have hone : ∀ d ∈ smallModule.declarations, d = .headerEnd ∨ IsLine d := by
    intro d hd
    simp only [smallModule, List.mem_cons, List.not_mem_nil, or_false] at hd
    rcases hd with rfl | rfl | rfl | rfl
    · exact .inr ⟨_, .text _, by decide⟩
    · exact .inr ⟨_, .renderable _, by decide⟩
    · exact .inl rfl
    · exact .inr ⟨_, .text _, by decide⟩
  obtain ⟨header, implementation, hok, hheader, himplementation⟩ :=
    hlines _ _ (split_of_countP (by decide)) hone (by decide) (by decide)
  exact ⟨header, implementation, hok, hheader, himplementation, fun texts h =>
    hsame plainRenderer headerModule _ texts rfl hok h⟩

end Rebuild.Proofs.OutputLines
