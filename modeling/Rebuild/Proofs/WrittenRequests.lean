import Rebuild.Config
import Rebuild.Proofs.LineReading

namespace Rebuild.Proofs.WrittenRequests

open Rebuild.CommandLine
open Rebuild.Proofs.LineReading

inductive ExtensionOption
  | header
  | impl
  | other
  deriving DecidableEq, Repr

namespace ExtensionOption

def spelling : ExtensionOption → String
  | header => "--header-ext"
  | impl => "--impl-ext"
  | other => "--other-ext"

def setting : ExtensionOption → Setting
  | header => .headerExt
  | impl => .implExt
  | other => .otherExt

def spec (e : ExtensionOption) : OptionSpec :=
  ⟨[e.spelling], .value e.setting⟩

theorem find?_spelling (e : ExtensionOption) : mainGrammar.find? e.spelling = some e.spec := by
  cases e <;> rfl

theorem isDashed_spelling (e : ExtensionOption) : IsDashed e.spelling := by
  cases e <;> exact ⟨_, _, rfl⟩

theorem spelling_ne (e : ExtensionOption) : e.spelling ≠ "--" := by
  cases e <;> decide

theorem equals_not_mem_spelling (e : ExtensionOption) : '=' ∉ e.spelling.toList := by
  cases e <;> decide

theorem isShort_spelling (e : ExtensionOption) : isShort e.spelling = false := by
  cases e <;> rfl

theorem setting_beq (e e' : ExtensionOption) :
    (e.setting == e'.setting) = decide (e = e') := by
  cases e <;> cases e' <;> rfl

end ExtensionOption

/-- An option with its value, as one argument or as two. A separator behind an equals sign
would not count as a value, nor would a word with a dash in front. -/
inductive GivenOption
  | joined (option : ExtensionOption) (value : String) (value_ne : value ≠ "--")
  | apart (option : ExtensionOption) (value : String) (undashed : IsUndashed value)

namespace GivenOption

def option : GivenOption → ExtensionOption
  | joined e _ _ => e
  | apart e _ _ => e

def value : GivenOption → String
  | joined _ v _ => v
  | apart _ v _ => v

def arguments : GivenOption → List String
  | joined e v _ => [e.spelling ++ "=" ++ v]
  | apart e v _ => [e.spelling, v]

def tokens : GivenOption → List Token
  | joined e v _ => [⟨e.spelling ++ "=" ++ v, .option ⟨e.spec, e.spelling, some v⟩⟩]
  | apart e v _ => [⟨e.spelling, .option ⟨e.spec, e.spelling, none⟩⟩, wordToken v]

def given (o : GivenOption) : Setting × Option String :=
  (o.option.setting, some o.value)

theorem map_text_tokens (o : GivenOption) : o.tokens.map (·.text) = o.arguments := by
  cases o <;> rfl

theorem isReading_of_mem_tokens (o : GivenOption) :
    ∀ t ∈ o.tokens, IsReading mainGrammar t := by
  have hspellings : ∀ s ∈ mainGrammar.spellings, '=' ∉ s.1.toList := by decide
  cases o with
  | joined e v hv =>
      rw [tokens, List.forall_mem_singleton]
      exact isReading_joined e.isDashed_spelling e.equals_not_mem_spelling hspellings
        e.find?_spelling v
  | apart e v hv =>
      rw [tokens, List.forall_mem_cons, List.forall_mem_singleton]
      exact ⟨isReading_spelling e.isDashed_spelling e.spelling_ne e.find?_spelling,
        isReading_word hv⟩

theorem leadsOn (o : GivenOption) (slots : List Slot) (rest : List Token) :
    LeadsOn mainGrammar slots (o.tokens ++ rest) slots rest ⟨[o.given], [], []⟩ := by
  cases o with
  | joined e v hv => exact leadsOn_joined rfl e.isShort_spelling hv
  | apart e v hv => exact leadsOn_apart rfl hv

end GivenOption

theorem leadsOn_options (options : List GivenOption) (slots : List Slot) (rest : List Token) :
    LeadsOn mainGrammar slots (options.flatMap GivenOption.tokens ++ rest) slots rest
      ⟨options.map GivenOption.given, [], []⟩ := by
  induction options with
  | nil => exact LeadsOn.refl
  | cons o options ih =>
      rw [List.flatMap_cons, List.append_assoc]
      exact (o.leadsOn slots _).trans ih

def valuesOf (e : ExtensionOption) (options : List GivenOption) : List String :=
  (options.filter fun o => o.option = e).map GivenOption.value

theorem values_of_given (e : ExtensionOption) {m : Matched} {options : List GivenOption}
    (h : m.given = options.map GivenOption.given) :
    m.values e.setting = (valuesOf e options).map some := by
  rw [Matched.values, h, valuesOf, List.filter_map, List.map_map, List.map_map]
  have hsame : ((fun g : Setting × Option String => g.1 == e.setting) ∘ GivenOption.given) =
      fun o => decide (o.option = e) := funext fun o => o.option.setting_beq e
  rw [hsame]
  rfl

/-- A status command with options in front, and flags before its words, behind the first of
them and behind the last. -/
structure StatusCommand where
  options : List GivenOption
  flagsBefore : Nat
  output : String
  flagsBetween : Nat
  modules : List String
  flagsAfter : Nat
  output_undashed : IsUndashed output
  modules_ne : modules ≠ []
  modules_undashed : ∀ m ∈ modules, IsUndashed m

namespace StatusCommand

def ownArguments (c : StatusCommand) : List String :=
  List.replicate c.flagsBefore "--always" ++ c.output ::
    (List.replicate c.flagsBetween "--always" ++
      (c.modules ++ List.replicate c.flagsAfter "--always"))

def arguments (c : StatusCommand) : List String :=
  c.options.flatMap GivenOption.arguments ++ "status" :: c.ownArguments

def flags (c : StatusCommand) : Nat :=
  c.flagsBefore + c.flagsBetween + c.flagsAfter

def ownTokens (c : StatusCommand) (flag : Token) : List Token :=
  List.replicate c.flagsBefore flag ++ wordToken c.output ::
    (List.replicate c.flagsBetween flag ++
      (c.modules.map wordToken ++ List.replicate c.flagsAfter flag))

theorem map_text_ownTokens (c : StatusCommand) (flag : Token) (h : flag.text = "--always") :
    (c.ownTokens flag).map (·.text) = c.ownArguments := by
  simp [ownTokens, ownArguments, h, wordToken, Function.comp_def]

theorem isReading_of_mem_ownTokens (c : StatusCommand) {g : Grammar} {flag : Token}
    (h : IsReading g flag) : ∀ t ∈ c.ownTokens flag, IsReading g t := by
  intro t ht
  simp only [ownTokens, List.mem_append, List.mem_cons, List.mem_map] at ht
  rcases ht with ht | rfl | ht | ⟨word, hword, rfl⟩ | ht
  · exact List.eq_of_mem_replicate ht ▸ h
  · exact isReading_word c.output_undashed
  · exact List.eq_of_mem_replicate ht ▸ h
  · exact isReading_word (c.modules_undashed word hword)
  · exact List.eq_of_mem_replicate ht ▸ h

def foreignFlag : Token :=
  ⟨"--always", .unknownOption⟩

theorem isReading_foreignFlag : IsReading mainGrammar foreignFlag :=
  ⟨by decide, rfl⟩

def mainTokens (c : StatusCommand) : List Token :=
  c.options.flatMap GivenOption.tokens ++ wordToken "status" :: c.ownTokens foreignFlag

theorem map_text_mainTokens (c : StatusCommand) : c.mainTokens.map (·.text) = c.arguments := by
  rw [mainTokens, List.map_append, List.map_flatMap, List.map_cons,
    c.map_text_ownTokens foreignFlag rfl]
  simp only [GivenOption.map_text_tokens]
  rfl

theorem isReading_of_mem_mainTokens (c : StatusCommand) :
    ∀ t ∈ c.mainTokens, IsReading mainGrammar t := by
  intro t ht
  rcases List.mem_append.mp ht with ht | ht
  · obtain ⟨o, _, ht⟩ := List.mem_flatMap.mp ht
    exact o.isReading_of_mem_tokens t ht
  · rcases List.mem_cons.mp ht with rfl | ht
    · exact isReading_word (by decide)
    · exact c.isReading_of_mem_ownTokens isReading_foreignFlag t ht

def matched (c : StatusCommand) : Matched :=
  ⟨c.options.map GivenOption.given, ["status" :: c.ownArguments], []⟩

theorem matchLine_main (c : StatusCommand) :
    mainGrammar.matchLine c.arguments = .ok (c.matched, []) := by
  have hcommand : LeadsOn mainGrammar mainGrammar.slots
      (wordToken "status" :: c.ownTokens foreignFlag) [] []
      ⟨[], ["status" :: c.ownArguments], []⟩ := by
    refine leadsOn_words ?_ (.inl rfl)
    have hfill : fillSlots [⟨"command", .command⟩]
        (wordToken "status" :: (c.ownTokens foreignFlag ++ [])) = _ :=
      fillSlots_word (by simp [Arity.goesOn]) (by simp)
    rw [List.append_nil, c.map_text_ownTokens foreignFlag rfl] at hfill
    exact hfill
  have hline := matchLine_of_leadsOn c.map_text_mainTokens c.isReading_of_mem_mainTokens
    ((leadsOn_options c.options _ _).trans hcommand)
  simpa [add, matched] using hline

def alwaysFlag : Token :=
  ⟨"--always", .option ⟨⟨["--always"], .flag .always⟩, "--always", none⟩⟩

theorem isReading_alwaysFlag : IsReading CommandName.status.grammar alwaysFlag :=
  isReading_spelling ⟨_, _, rfl⟩ (by decide) rfl

theorem leadsOn_alwaysFlags (n : Nat) (slots : List Slot) (rest : List Token) :
    LeadsOn CommandName.status.grammar slots (List.replicate n alwaysFlag ++ rest) slots rest
      ⟨List.replicate n (.always, none), [], []⟩ :=
  leadsOn_flags rfl n

def outputSlot : Slot := ⟨"output", .one⟩

def modulesSlot : Slot := ⟨"MODULE[=SOURCE]", .several⟩

section

variable {first : String} {others : List String} {n : Nat}

theorem goesOn_of_mem_words (words : List String) :
    ∀ t ∈ words.map wordToken, Arity.several.goesOn t = true := by
  simp [Arity.goesOn, wordToken, Token.isWord]

theorem fillSlots_output {output : String} (houtput : IsUndashed output) (rest : List Token)
    (hrest : ∀ t ∈ rest.head?, t.isSeparator = false) :
    fillSlots [outputSlot, modulesSlot] (wordToken output :: rest) =
      ([output] :: (fillSlots [modulesSlot] rest).1, (fillSlots [modulesSlot] rest).2) := by
  have hfill : fillSlots (⟨"output", .one⟩ :: [modulesSlot]) (wordToken output :: ([] ++ rest)) =
      _ := fillSlots_word (by simp) hrest
  rw [List.map_nil, arguments_of_undashed (by simpa using houtput)] at hfill
  exact hfill

theorem fillSlots_modules (h : ∀ m ∈ first :: others, IsUndashed m) :
    fillSlots [modulesSlot] (wordToken first ::
        (others.map wordToken ++ List.replicate n alwaysFlag)) =
      ([first :: others], [], List.replicate n alwaysFlag) := by
  have hstop : ∀ t ∈ (List.replicate n alwaysFlag).head?, Arity.several.goesOn t = false := by
    intro t ht
    obtain rfl := List.eq_of_mem_replicate (List.mem_of_mem_head? ht)
    rfl
  rw [modulesSlot, fillSlots_word (goesOn_of_mem_words others) hstop, map_text_wordToken,
    arguments_of_undashed h]
  rfl

end

/-- The output and the modules are taken together, or one after the other if there are
flags between them. -/
theorem leadsOn_words_of_modules (between n : Nat) {output first : String} {others : List String}
    (houtput : IsUndashed output) (hmodules : ∀ m ∈ first :: others, IsUndashed m) :
    LeadsOn CommandName.status.grammar [outputSlot, modulesSlot]
      (wordToken output :: (List.replicate between alwaysFlag ++
        ((first :: others).map wordToken ++ List.replicate n alwaysFlag))) []
      (List.replicate n alwaysFlag)
      ⟨List.replicate between (.always, none), [[output], first :: others], []⟩ := by
  have hflags : List.replicate n alwaysFlag = [] ∨
      (others.map wordToken ++ List.replicate n alwaysFlag).any Token.isOption = true := by
    cases n with
    | zero => exact .inl rfl
    | succ n => exact .inr (by simp [alwaysFlag, Token.isOption, Token.isWord, Token.isSeparator])
  have hthen := leadsOn_words (g := CommandName.status.grammar)
    (fillSlots_modules (n := n) hmodules) hflags
  cases between with
  | zero =>
      have hfill := fillSlots_output houtput
        (wordToken first :: (others.map wordToken ++ List.replicate n alwaysFlag))
        (by rintro _ ⟨⟩; rfl)
      rw [fillSlots_modules hmodules] at hfill
      exact leadsOn_words hfill hflags
  | succ k =>
      have hfill := fillSlots_output houtput (alwaysFlag :: (List.replicate k alwaysFlag ++
        ((first :: others).map wordToken ++ List.replicate n alwaysFlag))) (by rintro _ ⟨⟩; rfl)
      rw [fillSlots_option (t := alwaysFlag) rfl] at hfill
      have hfirst := leadsOn_words (g := CommandName.status.grammar) hfill (.inr rfl)
      simpa [add, List.replicate_succ] using
        hfirst.trans ((leadsOn_alwaysFlags (k + 1) _ _).trans hthen)

theorem leadsOn_ownTokens (c : StatusCommand) :
    LeadsOn CommandName.status.grammar [outputSlot, modulesSlot] (c.ownTokens alwaysFlag) [] []
      ⟨List.replicate c.flags (.always, none), [[c.output], c.modules], []⟩ := by
  obtain ⟨first, others, hmodules⟩ := List.exists_cons_of_ne_nil c.modules_ne
  have hundashed := hmodules ▸ c.modules_undashed
  have hbefore := leadsOn_alwaysFlags c.flagsBefore [outputSlot, modulesSlot]
    (wordToken c.output :: (List.replicate c.flagsBetween alwaysFlag ++
      ((first :: others).map wordToken ++ List.replicate c.flagsAfter alwaysFlag)))
  have hwords := leadsOn_words_of_modules c.flagsBetween c.flagsAfter c.output_undashed hundashed
  have hafter := leadsOn_alwaysFlags c.flagsAfter [] []
  rw [List.append_nil] at hafter
  have hall := hbefore.trans (hwords.trans hafter)
  rw [ownTokens, hmodules]
  simpa [add, flags, List.replicate_append_replicate, Nat.add_assoc] using hall

def ownMatched (c : StatusCommand) : Matched :=
  ⟨List.replicate c.flags (.always, none), [[c.output], c.modules], []⟩

theorem matchLine_status (c : StatusCommand) :
    CommandName.status.grammar.matchLine c.ownArguments = .ok (c.ownMatched, []) :=
  matchLine_of_leadsOn (c.map_text_ownTokens alwaysFlag rfl)
    (c.isReading_of_mem_ownTokens isReading_alwaysFlag) c.leadsOn_ownTokens

theorem read_ownArguments (c : StatusCommand) :
    CommandName.status.read c.ownArguments =
      .ok (.status c.output c.modules (decide (0 < c.flags)), []) := by
  have halways : (!(c.ownMatched.values .always).isEmpty) = decide (0 < c.flags) := by
    unfold ownMatched
    cases c.flags <;> rfl
  rw [CommandName.read, c.matchLine_status, ← halways]
  rfl

end StatusCommand

theorem getD_getLast?_map_some (values : List String) (base : String) :
    (values.map some).getLast?.getD (some base) = some (values.getLast?.getD base) := by
  rw [List.getLast?_map]
  cases values.getLast? <;> rfl

/-- A written status command is read, with the settings and words that it gives. -/
theorem parse_statusCommand (c : StatusCommand) :
    Request.parse c.arguments = .ok {
      headerExt? := some ((valuesOf .header c.options).getLast?.getD ({} : Settings).headerExt)
      implExt? := some ((valuesOf .impl c.options).getLast?.getD ({} : Settings).implExt)
      otherExts? :=
        if valuesOf .other c.options = [] then none
        else some ((valuesOf .other c.options).map some)
      question := .status c.output c.modules (decide (0 < c.flags)) } := by
  have hheader : c.matched.values .headerExt = (valuesOf .header c.options).map some :=
    values_of_given .header rfl
  have himpl : c.matched.values .implExt = (valuesOf .impl c.options).map some :=
    values_of_given .impl rfl
  have hother : c.matched.values .otherExt = (valuesOf .other c.options).map some :=
    values_of_given .other rfl
  have hcommand : readCommand c.matched.filled.flatten =
      .ok (.status c.output c.modules (decide (0 < c.flags)), []) := by
    rw [StatusCommand.matched, List.flatten_singleton]
    exact c.read_ownArguments
  have hmain : (mainGrammar.matchLine c.arguments).mapError Dismissal.ofMain =
      .ok (c.matched, []) := by
    rw [c.matchLine_main]
    rfl
  rw [Request.parse, hmain]
  simp only [bind, Except.bind, hcommand, hheader, himpl, hother,
    getD_getLast?_map_some, List.isEmpty_iff, List.map_eq_nil_iff]
  rfl

def smallCommand : StatusCommand where
  options := [.joined .header "" (by decide), .apart .other "a b" (by decide),
    .joined .header "--x" (by decide), .joined .other "=" (by decide)]
  flagsBefore := 1
  output := "out"
  flagsBetween := 0
  modules := ["A=src/A.purs", ""]
  flagsAfter := 2
  output_undashed := by decide
  modules_ne := by decide
  modules_undashed := by decide

theorem parse_statusCommand_small :
    Request.parse ["--header-ext=", "--other-ext", "a b", "--header-ext=--x", "--other-ext==",
        "status", "--always", "out", "A=src/A.purs", "", "--always", "--always"] =
      .ok ⟨some "--x", some "cc", some [some "a b", some "="],
        .status "out" ["A=src/A.purs", ""] true⟩ :=
  parse_statusCommand smallCommand

end Rebuild.Proofs.WrittenRequests
