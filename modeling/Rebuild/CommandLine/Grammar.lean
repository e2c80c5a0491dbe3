import Rebuild.Text.Digit
import Rebuild.Text.Quoted
import Rebuild.Text.Split

namespace Rebuild.CommandLine

inductive Setting
  | headerExt
  | implExt
  | otherExt
  | always
  deriving DecidableEq, Repr

/-- What an option does: asks for help, sets a flag, or gives a value. -/
inductive Role
  | help
  | flag (setting : Setting)
  | value (setting : Setting)
  deriving DecidableEq, Repr

structure OptionSpec where
  spellings : List String
  role : Role
  deriving DecidableEq, Repr

def OptionSpec.takesValue (o : OptionSpec) : Bool :=
  match o.role with
  | .value _ => true
  | _ => false

def isShort (spelling : String) : Bool :=
  match spelling.toList with
  | '-' :: '-' :: _ => false
  | _ => true

def OptionSpec.shown (o : OptionSpec) : String :=
  Text.join "/" o.spellings

/-- How many words a slot takes: one, several, or a word with everything behind it. -/
inductive Arity
  | one
  | several
  | command
  deriving DecidableEq, Repr

/-- A slot for words, named as in messages. -/
structure Slot where
  name : String
  arity : Arity
  deriving DecidableEq, Repr

structure Grammar where
  options : List OptionSpec
  slots : List Slot
  deriving DecidableEq, Repr

/-- Why reading a command line ends early: help was asked for, or it is misused. -/
inductive Stop
  | help
  | misuse (message : String)
  deriving DecidableEq, Repr

/-- An option as an argument gives it: its spelling, and the text given along with it,
behind an equals sign or directly behind a one-letter spelling. -/
structure Hit where
  option : OptionSpec
  spelling : String
  attached? : Option String
  deriving DecidableEq, Repr

inductive Mark
  | word
  | separator
  | option (hit : Hit)
  | unknownOption
  deriving DecidableEq, Repr

structure Token where
  text : String
  mark : Mark
  deriving DecidableEq, Repr

namespace Token

def isWord (t : Token) : Bool :=
  match t.mark with
  | .word => true
  | _ => false

def isSeparator (t : Token) : Bool :=
  match t.mark with
  | .separator => true
  | _ => false

def isOption (t : Token) : Bool :=
  !t.isWord && !t.isSeparator

end Token

def isNegativeNumber (s : String) : Bool :=
  match s.toList with
  | '-' :: cs =>
    let cs := if cs.getLast? = some '\n' then cs.dropLast else cs
    match cs.dropWhile Text.isDigit with
    | [] => !cs.isEmpty
    | '.' :: digits => !digits.isEmpty && digits.all Text.isDigit
    | _ => false
  | _ => false

namespace Grammar

def spellings (g : Grammar) : List (String × OptionSpec) :=
  g.options.flatMap fun o => o.spellings.map fun s => (s, o)

def find? (g : Grammar) (spelling : String) : Option OptionSpec :=
  (g.spellings.find? fun s => s.1 == spelling).map (·.2)

/-- The options that an argument may mean, when it is no spelling. A long option may be cut
short; behind a one-letter spelling there may be a text. -/
def candidates (g : Grammar) (arg : String) : List Hit :=
  match arg.toList with
  | '-' :: '-' :: _ =>
    let (start, text?) := Text.cut '=' arg
    (g.spellings.filter fun s => start.toList.isPrefixOf s.1.toList).map fun s =>
      ⟨s.2, s.1, text?⟩
  | '-' :: c :: rest =>
    g.spellings.filterMap fun s =>
      if s.1 = .ofList ['-', c] then some ⟨s.2, s.1, some (.ofList rest)⟩
      else if arg.toList.isPrefixOf s.1.toList then some ⟨s.2, s.1, none⟩
      else none
  | _ => []

/-- What an argument is that is no spelling and has none in front of an equals sign. -/
def classifyRest (g : Grammar) (arg : String) : Except Stop Mark :=
  match g.candidates arg with
  | [hit] => .ok (.option hit)
  | [] =>
    if isNegativeNumber arg || arg.toList.contains ' ' then .ok .word else .ok .unknownOption
  | hits =>
    .error (.misuse ("ambiguous option: " ++ arg ++ " could match " ++
      Text.join ", " (hits.map (·.spelling))))

/-- What an argument is that begins with a dash and is longer than that. -/
def classifyDashed (g : Grammar) (arg : String) : Except Stop Mark :=
  match g.find? arg with
  | some o => .ok (.option ⟨o, arg, none⟩)
  | none =>
    match Text.cut '=' arg with
    | (spelling, some text) =>
      match g.find? spelling with
      | some o => .ok (.option ⟨o, spelling, some text⟩)
      | none => g.classifyRest arg
    | (_, none) => g.classifyRest arg

def classify (g : Grammar) (arg : String) : Except Stop Mark :=
  match arg.toList with
  | '-' :: _ :: _ => g.classifyDashed arg
  | _ => .ok .word

/-- Tells all arguments apart. Behind the first separator there are only words. -/
def tokens (g : Grammar) : List String → Except Stop (List Token)
  | [] => .ok []
  | arg :: args =>
    if arg = "--" then .ok (⟨arg, .separator⟩ :: args.map fun a => ⟨a, .word⟩)
    else do
      let mark ← g.classify arg
      let rest ← g.tokens args
      return ⟨arg, mark⟩ :: rest

end Grammar

end Rebuild.CommandLine
