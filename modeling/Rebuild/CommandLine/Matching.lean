import Rebuild.CommandLine.Grammar

/-!
Matching a command line against its grammar: options are read where they stand,
slots take the words between them, and what fits nowhere is left over.
-/

namespace Rebuild.CommandLine

/-- What a command line gives: settings with their values in order, the arguments of
each slot that was filled, and what is left over. A flag has no value. -/
structure Matched where
  given : List (Setting × Option String)
  filled : List (List String)
  leftOver : List String
  deriving DecidableEq, Repr

namespace Matched

def nothing : Matched := ⟨[], [], []⟩

def give (setting : Setting) (value? : Option String) (m : Matched) : Matched :=
  { m with given := (setting, value?) :: m.given }

def fill (args : List (List String)) (m : Matched) : Matched :=
  { m with filled := args ++ m.filled }

def leave (args : List String) (m : Matched) : Matched :=
  { m with leftOver := args ++ m.leftOver }

end Matched

/-- A slot takes separators in front of its word, and behind it what its arity allows. -/
def Arity.goesOn : Arity → Token → Bool
  | one, t => t.isSeparator
  | several, t => t.isSeparator || t.isWord
  | command, _ => true

/-- The arguments that a slot takes from the front, and those that remain. -/
def Arity.take? (a : Arity) (ts : List Token) : Option (List String × List Token) :=
  match ts.dropWhile Token.isSeparator with
  | [] => none
  | t :: rest =>
    if t.isWord then
      let taken := ts.takeWhile Token.isSeparator ++ t :: rest.takeWhile a.goesOn
      some (taken.map (·.text), rest.dropWhile a.goesOn)
    else none

/-- A slot other than that of a command does not count the first separator it took. -/
def Arity.arguments (a : Arity) (args : List String) : List String :=
  match a with
  | command => args
  | _ => args.erase "--"

/-- Fills slots from the front, one after the other: the arguments of each, the slots
that remain, and the arguments that remain. -/
def fillSlots : List Slot → List Token → List (List String) × List Slot × List Token
  | [], ts => ([], [], ts)
  | s :: slots, ts =>
    match s.arity.take? ts with
    | none => ([], s :: slots, ts)
    | some (args, rest) =>
      let (more, slots, rest) := fillSlots slots rest
      (s.arity.arguments args :: more, slots, rest)

/-- The options that one argument gives: flags, then one more with the text given along
with it. -/
structure Bundle where
  flags : List OptionSpec
  last : OptionSpec
  text? : Option String
  deriving DecidableEq, Repr

def giveText (o : OptionSpec) (text : String) : Except Stop Bundle :=
  if o.takesValue then .ok ⟨[], o, some text⟩
  else
    .error (.misuse ("argument " ++ o.shown ++ ": ignored explicit argument " ++ Text.quote text))

/-- One-letter options written together. The text behind a flag is read as further
options, up to one that takes the rest for its value. -/
def unbundle (g : Grammar) (o : OptionSpec) : List Char → Except Stop Bundle
  | [] => giveText o ""
  | c :: rest =>
    if o.takesValue then giveText o (.ofList (c :: rest))
    else
      match g.find? (.ofList ['-', c]) with
      | none => giveText o (.ofList (c :: rest))
      | some next => do
        let b ← if rest.isEmpty then .ok ⟨[], next, none⟩ else unbundle g next rest
        return { b with flags := o :: b.flags }

def Hit.bundle (g : Grammar) (h : Hit) : Except Stop Bundle :=
  match h.attached? with
  | none => .ok ⟨[], h.option, none⟩
  | some text =>
    if isShort h.spelling then unbundle g h.option text.toList else giveText h.option text

/-- Takes note of flags; asking for help ends the reading. -/
def noteFlags : List OptionSpec → Except Stop (Matched → Matched)
  | [] => .ok id
  | o :: rest =>
    match o.role with
    | .help => .error .help
    | .value _ => noteFlags rest
    | .flag setting => do
      let note ← noteFlags rest
      return fun m => (note m).give setting none

def valueOf (text : String) : Option String :=
  if text = "--" then none else some text

def missingValue (o : OptionSpec) : Stop :=
  .misuse ("argument " ++ o.shown ++ ": expected one argument")

/-- Takes note of what a bundle gives. An option that wants a value takes it from the word
behind it. Returns also the arguments that remain. -/
def noteBundle (b : Bundle) (rest : List Token) :
    Except Stop ((Matched → Matched) × List Token) :=
  match b.last.role, b.text?, rest with
  | .value setting, some text, _ => do
    let note ← noteFlags b.flags
    return (fun m => note (m.give setting (valueOf text)), rest)
  | .value setting, none, next :: rest =>
    if next.isWord then do
      let note ← noteFlags b.flags
      return (fun m => note (m.give setting (valueOf next.text)), rest)
    else .error (missingValue b.last)
  | .value _, none, [] => .error (missingValue b.last)
  | _, _, _ => do
    let note ← noteFlags (b.flags ++ [b.last])
    return (note, rest)

theorem length_noteBundle {b : Bundle} {rest remaining : List Token}
    {note : Matched → Matched} (h : noteBundle b rest = .ok (note, remaining)) :
    remaining.length ≤ rest.length := by
  simp only [noteBundle, bind, Except.bind, pure, Except.pure] at h
  repeat' split at h
  all_goals simp_all

theorem length_take? {a : Arity} {ts rest : List Token} {args : List String}
    (h : a.take? ts = some (args, rest)) : rest.length < ts.length := by
  simp only [Arity.take?] at h
  split at h
  · cases h
  · rename_i t tail hdrop
    split at h
    · simp only [Option.some.injEq, Prod.mk.injEq] at h
      obtain ⟨_, rfl⟩ := h
      have h₁ : (tail.dropWhile a.goesOn).length ≤ tail.length :=
        (List.dropWhile_suffix _).length_le
      have h₂ : (ts.dropWhile Token.isSeparator).length ≤ ts.length :=
        (List.dropWhile_suffix _).length_le
      rw [hdrop, List.length_cons] at h₂
      omega
    · cases h

theorem length_fillSlots (slots : List Slot) (ts : List Token) :
    (fillSlots slots ts).2.2.length + (fillSlots slots ts).1.length ≤ ts.length := by
  induction slots generalizing ts with
  | nil => simp [fillSlots]
  | cons s slots ih =>
    simp only [fillSlots]
    split
    · simp
    · rename_i args rest htake
      have hrest := ih rest
      have htaken := length_take? htake
      generalize fillSlots slots rest = r at hrest ⊢
      rcases r with ⟨more, slots', rest'⟩
      simp only [List.length_cons] at hrest ⊢
      omega

theorem lt_of_fillSlots {slots slots' : List Slot} {ts rest : List Token} {args : List String}
    {more : List (List String)} (h : fillSlots slots ts = (args :: more, slots', rest)) :
    rest.length < ts.length := by
  have := length_fillSlots slots ts
  simp only [h, List.length_cons] at this
  omega

/-- Reads a command line from the front. While an option is ahead, words fill the slots
they can, all at once, or are left over; an option takes what belongs to it. -/
def consume (g : Grammar) (slots : List Slot) (ts : List Token) :
    Except Stop (Matched × List Slot) :=
  if ts.any Token.isOption then
    match ts with
    | [] => .ok (.nothing, slots)
    | t :: rest =>
      match t.mark with
      | .unknownOption => do
        let (m, slots) ← consume g slots rest
        return (m.leave [t.text], slots)
      | .option hit => do
        let b ← hit.bundle g
        match h : noteBundle b rest with
        | .error stop => .error stop
        | .ok (note, rest') =>
          have := length_noteBundle h
          let (m, slots) ← consume g slots rest'
          return (note m, slots)
      | _ =>
        match h : fillSlots slots (t :: rest) with
        | ([], _, _) => do
          let (m, slots) ← consume g slots (rest.dropWhile fun t => !t.isOption)
          return (m.leave ((t :: rest.takeWhile fun t => !t.isOption).map (·.text)), slots)
        | (args :: more, slots', rest') => do
          have := lt_of_fillSlots h
          let (m, slots) ← consume g slots' rest'
          return (m.fill (args :: more), slots)
  else
    let (args, slots, rest) := fillSlots slots ts
    .ok ((Matched.nothing.leave (rest.map (·.text))).fill args, slots)
termination_by ts.length
decreasing_by
  · simp
  · simp only [List.length_cons]
    omega
  · have := (List.dropWhile_suffix (fun t : Token => !t.isOption) (l := rest)).length_le
    simp only [List.length_cons]
    omega
  · exact this

/-- Matches a command line; returns also the slots that nothing filled. -/
def Grammar.matchLine (g : Grammar) (args : List String) :
    Except Stop (Matched × List Slot) := do
  consume g g.slots (← g.tokens args)

def requireFilled : List Slot → Except Stop Unit
  | [] => .ok ()
  | slots =>
    .error (.misuse ("the following arguments are required: " ++
      Text.join ", " (slots.map (·.name))))

end Rebuild.CommandLine
