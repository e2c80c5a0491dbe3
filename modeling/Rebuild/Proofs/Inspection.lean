import Rebuild.CommandLine.Answer
import Rebuild.Proofs.Layout
import Rebuild.Proofs.Runs

namespace Rebuild.Proofs.Inspection

open Rebuild.CommandLine
open Rebuild.Proofs.Steps
open Rebuild.Proofs.Runs

/-- If the question has no answer, then for an error to report. -/
def Reports {α : Type} (x : Except BuildError α) : Prop :=
  ∀ e, x = .error e → e.isReported = true

section

variable {α β ε : Type}

theorem reports_ok (a : α) : Reports (.ok a) := by
  rintro e ⟨⟩

theorem reports_error {e : BuildError} (h : e.isReported = true) :
    Reports (.error e : Except BuildError α) := by
  rintro _ ⟨⟩
  exact h

theorem reports_bind {x : Except BuildError α} {f : α → Except BuildError β}
    (hx : Reports x) (hf : ∀ a, Reports (f a)) : Reports (x >>= f) := by
  cases x with
  | error e => exact reports_error (hx e rfl)
  | ok a => exact hf a

theorem reports_mapError {x : Except ε α} {f : ε → BuildError}
    (h : ∀ e, (f e).isReported = true) : Reports (x.mapError f) := by
  cases x with
  | error e => exact reports_error (h e)
  | ok a => exact reports_ok a

end

section

variable (p : Project) (t : FileTree)

theorem reports_artifacts (n : ModuleName) : Reports (p.artifacts n) :=
  reports_mapError fun _ => rfl

theorem reports_locate (n : ModuleName) : Reports (p.modules.locate n) := by
  unfold ModuleMap.locate
  split
  · exact reports_ok _
  · exact reports_error rfl

theorem reports_timestamp? (q : Path) : Reports (t.timestamp? q) := by
  unfold FileTree.timestamp?
  split
  · exact reports_error rfl
  · exact reports_ok _
  · exact reports_ok _

theorem reports_timestamps (paths : List Path) : Reports (t.timestamps paths) := by
  induction paths with
  | nil => exact reports_ok _
  | cons q paths ih =>
      exact reports_bind (reports_timestamp? t q) fun _ => reports_bind ih fun _ => reports_ok _

theorem reports_timestampsWhilePresent (paths : List Path) :
    Reports (t.timestampsWhilePresent paths) := by
  induction paths with
  | nil => exact reports_ok _
  | cons q paths ih =>
      apply reports_bind (reports_timestamp? t q)
      intro stamp?
      split
      · exact reports_ok _
      · exact reports_bind ih fun _ => reports_ok _

theorem reports_inputAgeAt (location : SourceLocation) : Reports (p.inputAgeAt t location) := by
  cases location with
  | governed policy => exact reports_ok _
  | file source =>
      have hinputs : Reports (p.inputs source) :=
        reports_bind (reports_mapError fun _ => rfl) fun _ => reports_ok _
      exact reports_bind hinputs fun paths =>
        reports_bind (reports_timestamps t paths) fun _ => reports_ok _

theorem reports_needsRebuild (n : ModuleName) : Reports (p.needsRebuild t n) := by
  apply reports_bind (reports_locate p n)
  intro location
  have houtput : Reports (p.outputTimestamp t n) :=
    reports_bind (reports_artifacts p n) fun a =>
      reports_bind (reports_timestampsWhilePresent t a.primary) fun _ => reports_ok _
  apply reports_bind houtput
  intro written?
  split
  · exact reports_ok _
  · exact reports_bind (reports_inputAgeAt p t location) fun _ => reports_ok _

theorem reports_readText (q : Path) : Reports (t.readText q) := by
  unfold FileTree.readText
  split
  · exact reports_error rfl
  · exact reports_error rfl
  · split
    · exact reports_error rfl
    · exact reports_ok _

theorem reports_readExterns (n : ModuleName) : Reports (p.readExterns t n) :=
  reports_bind (reports_artifacts p n) fun a =>
    reports_bind (reports_readText t a.externs) fun _ => reports_ok _

end

theorem reports_ofText (s : String) : Reports (ModuleName.ofValue (.text s)) :=
  reports_mapError fun _ => rfl

theorem reports_moduleOf (s : String) : Reports (moduleOf (some s)) :=
  reports_ofText s

theorem reports_config (r : Request) : Reports r.config :=
  reports_mapError fun _ => rfl

theorem reports_readPairs {pairs : List (Value × Value)}
    (h : ∀ pair ∈ pairs, (∃ s, pair.1 = .text s) ∧
      ((∃ s, pair.2 = .text s) ∨ ∃ policy, pair.2 = .policy policy)) :
    Reports (ModuleMap.readPairs pairs) := by
  induction pairs with
  | nil => exact reports_ok _
  | cons pair pairs ih =>
      obtain ⟨key, v⟩ := pair
      obtain ⟨⟨s, rfl⟩, hv⟩ := h (key, v) (by simp)
      have hlocation : Reports (SourceLocation.ofValue v) := by
        rcases hv with ⟨source, rfl⟩ | ⟨policy, rfl⟩ <;> exact reports_ok _
      exact reports_bind (reports_ofText s) fun _ => reports_bind hlocation fun _ =>
        reports_bind (ih fun q hq => h q (List.mem_cons_of_mem _ hq)) fun _ => reports_ok _

theorem reports_moduleMap (policy : RebuildPolicy) (args : List String) :
    Reports (moduleMap (moduleArguments policy args)) := by
  refine reports_bind (reports_readPairs ?_) fun _ => reports_ok _
  rintro _ hpair
  obtain ⟨given, hgiven, rfl⟩ := List.mem_map.mp hpair
  refine ⟨⟨given.1, rfl⟩, ?_⟩
  obtain ⟨arg, _, rfl⟩ := List.mem_map.mp (OrderedMap.mem_of_mem_ofList hgiven)
  dsimp only
  split
  · exact .inl ⟨_, rfl⟩
  · exact .inr ⟨_, rfl⟩

def told (lines : List String) (w : Workspace) : Workspace :=
  { w with printed := w.printed ++ lines }

theorem told_nil (w : Workspace) : told [] w = w := by
  simp [told]

theorem told_told (lines more : List String) (w : Workspace) :
    told more (told lines w) = told (lines ++ more) w := by
  simp [told]

/-- From every workspace the step prints lines and does no more; if an error ends it, then
one to report. -/
def OnlyPrints {α : Type} (x : BuildM α) : Prop :=
  ∀ w, ∃ lines, (∃ a, x w = .ok a (told lines w)) ∨
    ∃ e, e.isReported = true ∧ x w = .error e (told lines w)

section

variable {α β : Type}

theorem onlyPrints_pure (a : α) : OnlyPrints (pure a : BuildM α) :=
  fun w => ⟨[], .inl ⟨a, by simp [told_nil]⟩⟩

theorem onlyPrints_get : OnlyPrints (get : BuildM Workspace) :=
  fun w => ⟨[], .inl ⟨w, by simp [told_nil]⟩⟩

theorem onlyPrints_printLine (line : String) : OnlyPrints (printLine line) :=
  fun _ => ⟨[line], .inl ⟨(), rfl⟩⟩

theorem onlyPrints_lift {x : Except BuildError α} (h : Reports x) :
    OnlyPrints (monadLift x : BuildM α) := by
  intro w
  cases x with
  | error e => exact ⟨[], .inr ⟨e, h e rfl, by simp [told_nil]⟩⟩
  | ok a => exact ⟨[], .inl ⟨a, by simp [told_nil]⟩⟩

theorem onlyPrints_bind {x : BuildM α} {f : α → BuildM β} (hx : OnlyPrints x)
    (hf : ∀ a, OnlyPrints (f a)) : OnlyPrints (x >>= f) := by
  intro w
  obtain ⟨lines, ⟨a, ha⟩ | ⟨e, he, hxe⟩⟩ := hx w
  · rw [bind_of_ok ha]
    obtain ⟨more, hmore⟩ := hf a (told lines w)
    rw [told_told] at hmore
    exact ⟨lines ++ more, hmore⟩
  · exact ⟨lines, .inr ⟨e, he, bind_of_error hxe⟩⟩

theorem onlyPrints_bind_lift {x : Except BuildError α} {f : α → BuildM β} (hx : Reports x)
    (hf : ∀ a, OnlyPrints (f a)) : OnlyPrints ((liftM x : BuildM α) >>= f) :=
  onlyPrints_bind (onlyPrints_lift hx) hf

theorem onlyPrints_forM (xs : List α) {f : α → BuildM Unit} (hf : ∀ a, OnlyPrints (f a)) :
    OnlyPrints (xs.forM f) := by
  induction xs with
  | nil => exact onlyPrints_pure ()
  | cons x xs ih => exact onlyPrints_bind (hf x) fun _ => ih

end

theorem onlyPrints_printStatus (p : Project) (names : List String) :
    OnlyPrints (printStatus p names) := by
  induction names with
  | nil => exact onlyPrints_pure ()
  | cons name names ih =>
      apply onlyPrints_bind_lift (reports_ofText name)
      intro n
      apply onlyPrints_bind onlyPrints_get
      intro w
      apply onlyPrints_bind_lift (reports_needsRebuild p w.files n)
      intro stale
      exact onlyPrints_bind (onlyPrints_printLine _) fun _ => ih

def hasModule : Question → Bool
  | .status _ _ _ => true
  | .externs _ module? => module?.isSome
  | .paths _ module? => module?.isSome

theorem onlyPrints_question (config : Config) {q : Question} (h : hasModule q = true) :
    OnlyPrints (q.answer config) := by
  cases q with
  | status output args always =>
      rw [Question.answer]
      exact onlyPrints_bind_lift (reports_moduleMap _ args)
        fun _ => onlyPrints_printStatus _ _
  | externs output module? =>
      obtain ⟨s, rfl⟩ := Option.isSome_iff_exists.mp h
      rw [Question.answer]
      apply onlyPrints_bind_lift (reports_moduleOf s)
      intro n
      apply onlyPrints_bind onlyPrints_get
      intro w
      apply onlyPrints_bind_lift (reports_readExterns (Request.project output config ⟨∅⟩) w.files n)
      exact fun _ => onlyPrints_printLine _
  | paths output module? =>
      obtain ⟨s, rfl⟩ := Option.isSome_iff_exists.mp h
      rw [Question.answer]
      apply onlyPrints_bind_lift (reports_moduleOf s)
      intro n
      apply onlyPrints_bind_lift (reports_artifacts (Request.project output config ⟨∅⟩) n)
      exact fun a => onlyPrints_forM a.all fun q => onlyPrints_printLine q.text

/-- The settings can be used, but in the place of the module there is no word. -/
def LacksModule (r : Request) : Prop :=
  (∃ config, r.config = .ok config) ∧ hasModule r.question = false

theorem onlyPrints_answer {r : Request} (h : ¬ LacksModule r) : OnlyPrints r.answer := by
  unfold Request.answer
  cases hconfig : r.config with
  | error e =>
      exact fun w => ⟨[], .inr ⟨e, reports_config r e hconfig, by rw [told_nil]; rfl⟩⟩
  | ok config =>
      have hmodule : hasModule r.question = true := by
        rw [← Bool.not_eq_false]
        exact fun hnone => h ⟨⟨config, hconfig⟩, hnone⟩
      exact onlyPrints_bind_lift (reports_ok config)
        fun config => onlyPrints_question config hmodule

theorem answer_of_lacksModule {r : Request} (h : LacksModule r) (w : Workspace) :
    r.answer w = .error (.shape (.moduleName (.list []))) w := by
  obtain ⟨⟨config, hconfig⟩, hmodule⟩ := h
  unfold Request.answer
  rw [hconfig, bind_of_ok (lift_ok_apply config w)]
  cases hquestion : r.question with
  | status output args always => simp [hquestion, hasModule] at hmodule
  | externs output module? =>
      obtain rfl : module? = none := by simpa [hquestion, hasModule] using hmodule
      rfl
  | paths output module? =>
      obtain rfl : module? = none := by simpa [hquestion, hasModule] using hmodule
      rfl

theorem respond_of_ok {r : Request} {w w' : Workspace} (h : r.answer w = .ok () w') :
    r.respond w = .ok 0 w' := by
  unfold Request.respond
  rw [tryCatch_apply, bind_of_ok h]
  rfl

theorem respond_of_error {r : Request} {w w' : Workspace} {e : BuildError}
    (h : r.answer w = .error e w') :
    r.respond w =
      if e.isReported then .ok 1 (told ["✗ " ++ e.message] w') else .error e w' := by
  unfold Request.respond
  rw [tryCatch_apply, bind_of_error h]
  dsimp only
  split <;> rfl

theorem run_of_parse {args : List String} {r : Request} (t : FileTree)
    (hr : Request.parse args = .ok r) : run t args = .ofResult (r.respond (opened t)) := by
  simp only [run, hr]

theorem run_of_lacksModule {args : List String} {r : Request} (t : FileTree)
    (hr : Request.parse args = .ok r) (h : LacksModule r) :
    run t args = ⟨"", "", t, .error (.shape (.moduleName (.list [])))⟩ := by
  rw [run_of_parse t hr, respond_of_error (answer_of_lacksModule h (opened t))]
  rfl

/-- A command line that was read leaves the tree as it was. Without a word in the place of
the module the program ends with an error that it does not report. Otherwise it ends with
0 once its answer is printed; or with 1, and then an error cut the answer short that was
printed behind it. -/
theorem run_reports {args : List String} {r : Request} (t : FileTree)
    (hr : Request.parse args = .ok r) :
    (run t args).files = t ∧ (run t args).errors = "" ∧
      ((LacksModule r ∧ (run t args).output = "" ∧
          (run t args).ending = .error (.shape (.moduleName (.list [])))) ∨
        (¬ LacksModule r ∧ ∃ lines,
          (r.answer (opened t) = .ok () (told lines (opened t)) ∧
            (run t args).output = Outcome.unlines lines ∧ (run t args).ending = .ok 0) ∨
          ∃ e, e.isReported = true ∧
            r.answer (opened t) = .error e (told lines (opened t)) ∧
            (run t args).output = Outcome.unlines (lines ++ ["✗ " ++ e.message]) ∧
            (run t args).ending = .ok 1)) := by
  by_cases hlacks : LacksModule r
  · rw [run_of_lacksModule t hr hlacks]
    exact ⟨rfl, rfl, .inl ⟨hlacks, rfl, rfl⟩⟩
  · have hrun := run_of_parse t hr
    obtain ⟨lines, ⟨_, hanswer⟩ | ⟨e, he, hanswer⟩⟩ := onlyPrints_answer hlacks (opened t)
    · rw [hrun, respond_of_ok hanswer]
      exact ⟨rfl, rfl, .inr ⟨hlacks, lines, .inl ⟨hanswer, rfl, rfl⟩⟩⟩
    · rw [hrun, respond_of_error hanswer, if_pos he, told_told]
      exact ⟨rfl, rfl, .inr ⟨hlacks, lines, .inr ⟨e, he, hanswer, rfl, rfl⟩⟩⟩

theorem eq_ok_of_toOption {α ε : Type} {x : Except ε α} {a : α} (h : x.toOption = some a) :
    x = .ok a := by
  cases x with
  | error e => cases h
  | ok b => exact congrArg Except.ok (Option.some.inj h)

def statusArguments : List String :=
  ["status", "out", "A", "/"]

def statusRequest : Request :=
  ⟨some "hh", some "cc", none, .status "out" ["A", "/"] false⟩

theorem run_reports_small :
    Request.parse statusArguments = .ok statusRequest ∧
      (run smallTree statusArguments).files = smallTree ∧
      ∃ (lines : List String) (e : BuildError), e.isReported = true ∧
        (run smallTree statusArguments).output =
          Outcome.unlines (lines ++ ["✗ " ++ e.message]) ∧
        (run smallTree statusArguments).ending = .ok 1 := by
  have hparse : Request.parse statusArguments = .ok statusRequest :=
    eq_ok_of_toOption (by decide +kernel)
  have hending : (run smallTree statusArguments).ending = .ok 1 :=
    answers_iff.mp (by decide +kernel)
  obtain ⟨hfiles, _, hcase⟩ := run_reports smallTree hparse
  refine ⟨hparse, hfiles, ?_⟩
  rcases hcase with ⟨_, _, hunreported⟩ | ⟨_, lines, ⟨_, _, hdone⟩ | ⟨e, he, _, houtput, hone⟩⟩
  · simp [hending] at hunreported
  · simp [hending] at hdone
  · exact ⟨lines, e, he, houtput, hone⟩

def separatorArguments : List String :=
  ["externs", "out", "--", "--"]

def separatorRequest : Request :=
  ⟨some "hh", some "cc", none, .externs "out" none⟩

theorem lacksModule_separator : LacksModule separatorRequest :=
  ⟨⟨.default, rfl⟩, rfl⟩

/-- A command line may be read and yet end in an error that is not reported. -/
theorem not_forall_run_ends :
    ¬ ∀ (t : FileTree) (args : List String) (r : Request), Request.parse args = .ok r →
      ∃ code, (run t args).ending = .ok code := by
  intro h
  have hparse : Request.parse separatorArguments = .ok separatorRequest :=
    eq_ok_of_toOption (by decide +kernel)
  obtain ⟨code, hcode⟩ := h ∅ separatorArguments separatorRequest hparse
  simp [run_of_lacksModule ∅ hparse lacksModule_separator] at hcode

end Rebuild.Proofs.Inspection
