import Rebuild.CommandLine.Request

/-!
Reading a command line from the front. Each argument is told apart on its own; then each
step takes an option with its value, or the words for the slots ahead, and the reading goes
on behind them with what the step noted in front.
-/

namespace Rebuild.Proofs.LineReading

open Rebuild.CommandLine

def IsUndashed (arg : String) : Prop :=
  arg.toList.head? ≠ some '-'

instance (arg : String) : Decidable (IsUndashed arg) := by
  unfold IsUndashed
  infer_instance

def IsDashed (arg : String) : Prop :=
  ∃ c cs, arg.toList = '-' :: c :: cs

/-- The token is an argument in front of the separator, and marked for what it is. -/
def IsReading (g : Grammar) (t : Token) : Prop :=
  t.text ≠ "--" ∧ g.classify t.text = .ok t.mark

def wordToken (word : String) : Token :=
  ⟨word, .word⟩

theorem map_text_wordToken (words : List String) :
    (words.map wordToken).map (·.text) = words := by
  simp [wordToken, Function.comp_def]

section

variable {g : Grammar} {arg spelling : String} {o : OptionSpec}

theorem tokens_map_text {ts : List Token} (h : ∀ t ∈ ts, IsReading g t) :
    g.tokens (ts.map (·.text)) = .ok ts := by
  induction ts with
  | nil => rfl
  | cons t ts ih =>
      obtain ⟨⟨hne, hmark⟩, hts⟩ := List.forall_mem_cons.mp h
      rw [List.map_cons, Grammar.tokens, if_neg hne, hmark, ih hts]
      rfl

theorem isReading_word (h : IsUndashed arg) : IsReading g (wordToken arg) := by
  refine ⟨?_, ?_⟩
  · rintro rfl
    exact h rfl
  · unfold Grammar.classify
    split
    · rename_i heq
      exact absurd (congrArg List.head? heq) h
    · rfl

theorem classify_of_isDashed (h : IsDashed arg) : g.classify arg = g.classifyDashed arg := by
  obtain ⟨c, cs, hcs⟩ := h
  simp only [Grammar.classify, hcs]

theorem isReading_spelling (hdashed : IsDashed spelling) (hne : spelling ≠ "--")
    (hfind : g.find? spelling = some o) :
    IsReading g ⟨spelling, .option ⟨o, spelling, none⟩⟩ := by
  refine ⟨hne, ?_⟩
  rw [classify_of_isDashed hdashed, Grammar.classifyDashed, hfind]

theorem isReading_joined (hdashed : IsDashed spelling) (hequals : '=' ∉ spelling.toList)
    (hspellings : ∀ s ∈ g.spellings, '=' ∉ s.1.toList) (hfind : g.find? spelling = some o)
    (value : String) :
    IsReading g ⟨spelling ++ "=" ++ value, .option ⟨o, spelling, some value⟩⟩ := by
  have hmem : '=' ∈ (spelling ++ "=" ++ value).toList := by simp
  have hnone : g.find? (spelling ++ "=" ++ value) = none := by
    rw [Grammar.find?, Option.map_eq_none_iff, List.find?_eq_none]
    intro s hs heq
    rw [beq_iff_eq] at heq
    exact hspellings s hs (heq ▸ hmem)
  have hcut : Text.cut '=' (spelling ++ "=" ++ value) = (spelling, some value) :=
    Text.cut_append hequals value
  refine ⟨?_, ?_⟩
  · intro (heq : spelling ++ "=" ++ value = "--")
    rw [heq] at hmem
    exact absurd hmem (by decide)
  · obtain ⟨c, cs, hcs⟩ := hdashed
    rw [classify_of_isDashed ⟨c, cs ++ "=".toList ++ value.toList, by simp [hcs]⟩,
      Grammar.classifyDashed, hnone]
    simp only [hcut, hfind]

end

section

variable {a : Arity} {word : String} {taken rest : List Token}

theorem take?_word (htaken : ∀ t ∈ taken, a.goesOn t = true)
    (hrest : ∀ t ∈ rest.head?, a.goesOn t = false) :
    a.take? (wordToken word :: (taken ++ rest)) = some (word :: taken.map (·.text), rest) := by
  have hstop : rest.takeWhile a.goesOn = [] ∧ rest.dropWhile a.goesOn = rest := by
    cases rest with
    | nil => exact ⟨rfl, rfl⟩
    | cons t rest => simp [hrest t rfl]
  have hword : (wordToken word).isSeparator = false := rfl
  simp only [Arity.take?, List.dropWhile_cons, List.takeWhile_cons, hword, Bool.false_eq_true,
    if_false, List.takeWhile_append_of_pos htaken, List.dropWhile_append_of_pos htaken, hstop,
    List.append_nil, List.nil_append]
  rfl

theorem fillSlots_word {name : String} {slots : List Slot}
    (htaken : ∀ t ∈ taken, a.goesOn t = true) (hrest : ∀ t ∈ rest.head?, a.goesOn t = false) :
    fillSlots (⟨name, a⟩ :: slots) (wordToken word :: (taken ++ rest)) =
      (a.arguments (word :: taken.map (·.text)) :: (fillSlots slots rest).1,
        (fillSlots slots rest).2) := by
  rw [fillSlots, take?_word htaken hrest]

theorem arguments_of_undashed {words : List String} (h : ∀ w ∈ words, IsUndashed w) :
    a.arguments words = words := by
  have hmem : "--" ∉ words := fun hmem => h "--" hmem rfl
  cases a with
  | command => rfl
  | _ => exact List.erase_of_not_mem hmem

theorem fillSlots_option {t : Token} (ht : t.isOption = true) (s : Slot) (slots : List Slot) :
    fillSlots (s :: slots) (t :: rest) = ([], s :: slots, t :: rest) := by
  have hmark : t.isSeparator = false ∧ t.isWord = false := by
    simpa [Token.isOption, and_comm] using ht
  have htake : s.arity.take? (t :: rest) = none := by simp [Arity.take?, hmark]
  rw [fillSlots, htake]

theorem fillSlots_nil (slots : List Slot) : fillSlots slots [] = ([], slots, []) := by
  cases slots <;> rfl

end

def add (m m' : Matched) : Matched :=
  ⟨m.given ++ m'.given, m.filled ++ m'.filled, m.leftOver ++ m'.leftOver⟩

theorem add_assoc (m₁ m₂ m₃ : Matched) : add (add m₁ m₂) m₃ = add m₁ (add m₂ m₃) := by
  simp [add]

theorem add_nothing (m : Matched) : add m .nothing = m := by
  simp [add, Matched.nothing]

/-- Reading with some slots ahead goes on with fewer slots and arguments, after it noted
what stood between. -/
def LeadsOn (g : Grammar) (slots : List Slot) (ts : List Token) (slots' : List Slot)
    (ts' : List Token) (m : Matched) : Prop :=
  consume g slots ts = (consume g slots' ts').map fun r => (add m r.1, r.2)

section

variable {g : Grammar} {slots slots' slots'' : List Slot} {ts ts' ts'' rest rest' : List Token}
variable {m m' : Matched}

theorem LeadsOn.refl : LeadsOn g slots ts slots ts .nothing := by
  unfold LeadsOn
  cases consume g slots ts <;> rfl

theorem LeadsOn.trans (h : LeadsOn g slots ts slots' ts' m)
    (h' : LeadsOn g slots' ts' slots'' ts'' m') : LeadsOn g slots ts slots'' ts'' (add m m') := by
  unfold LeadsOn at h h' ⊢
  rw [h, h']
  cases consume g slots'' ts'' <;> simp [Except.map, add_assoc]

theorem LeadsOn.consume_eq (h : LeadsOn g slots ts [] [] m) :
    consume g slots ts = .ok (m, []) := by
  have hend : consume g [] [] = .ok (.nothing, []) := by rw [consume]; rfl
  rw [h, hend, Except.map, add_nothing]

/-- A line that leads through all slots to its end is matched. -/
theorem matchLine_of_leadsOn {args : List String} (hargs : ts.map (·.text) = args)
    (hreading : ∀ t ∈ ts, IsReading g t) (h : LeadsOn g g.slots ts [] [] m) :
    g.matchLine args = .ok (m, []) := by
  rw [Grammar.matchLine, ← hargs, tokens_map_text hreading]
  exact h.consume_eq

theorem leadsOn_option {text : String} {hit : Hit} {b : Bundle} (hb : hit.bundle g = .ok b)
    (hnote : noteBundle b rest = .ok (add m, rest')) :
    LeadsOn g slots (⟨text, .option hit⟩ :: rest) slots rest' m := by
  have hany : ((⟨text, .option hit⟩ : Token) :: rest).any Token.isOption = true := by
    simp [Token.isOption, Token.isWord, Token.isSeparator]
  rw [LeadsOn, consume, if_pos hany]
  simp only [hb, bind, Except.bind]
  split
  · rename_i h
    rw [hnote] at h
    cases h
  · rename_i h
    rw [hnote] at h
    cases h
    rfl

theorem leadsOn_words {word : String} {args : List String} {more : List (List String)}
    (hfill : fillSlots slots (wordToken word :: rest) = (args :: more, slots', rest'))
    (hrest : rest' = [] ∨ rest.any Token.isOption = true) :
    LeadsOn g slots (wordToken word :: rest) slots' rest' ⟨[], args :: more, []⟩ := by
  have hany : (wordToken word :: rest).any Token.isOption = rest.any Token.isOption := rfl
  rw [LeadsOn, consume, hany]
  by_cases hoption : rest.any Token.isOption = true
  · rw [if_pos hoption]
    simp only [wordToken]
    split
    · rename_i h
      rw [show fillSlots slots (⟨word, .word⟩ :: rest) = _ from hfill] at h
      cases h
    · rename_i h
      rw [show fillSlots slots (⟨word, .word⟩ :: rest) = _ from hfill] at h
      cases h
      rfl
  · obtain rfl := hrest.resolve_right hoption
    rw [if_neg hoption, hfill, consume, if_neg (by simp), fillSlots_nil]
    rfl

theorem leadsOn_joined {text spelling value : String} {o : OptionSpec} {setting : Setting}
    (hrole : o.role = .value setting) (hlong : isShort spelling = false) (hvalue : value ≠ "--") :
    LeadsOn g slots (⟨text, .option ⟨o, spelling, some value⟩⟩ :: rest) slots rest
      ⟨[(setting, some value)], [], []⟩ := by
  have htakes : o.takesValue = true := by simp [OptionSpec.takesValue, hrole]
  refine leadsOn_option (b := ⟨[], o, some value⟩) ?_ ?_
  · simp [Hit.bundle, hlong, giveText, htakes]
  · simp only [noteBundle, hrole, valueOf, if_neg hvalue]
    rfl

theorem leadsOn_apart {text spelling value : String} {o : OptionSpec} {setting : Setting}
    (hrole : o.role = .value setting) (hvalue : IsUndashed value) :
    LeadsOn g slots (⟨text, .option ⟨o, spelling, none⟩⟩ :: wordToken value :: rest) slots rest
      ⟨[(setting, some value)], [], []⟩ := by
  have hne : value ≠ "--" := (isReading_word (g := g) hvalue).1
  refine leadsOn_option (b := ⟨[], o, none⟩) rfl ?_
  simp only [noteBundle, hrole, wordToken, valueOf, if_neg hne]
  rfl

theorem leadsOn_flags {text spelling : String} {o : OptionSpec} {setting : Setting}
    (hrole : o.role = .flag setting) (n : Nat) :
    LeadsOn g slots (List.replicate n ⟨text, .option ⟨o, spelling, none⟩⟩ ++ rest) slots rest
      ⟨List.replicate n (setting, none), [], []⟩ := by
  induction n with
  | zero => exact LeadsOn.refl
  | succ n ih =>
      have hfirst : LeadsOn g slots (⟨text, .option ⟨o, spelling, none⟩⟩ ::
          (List.replicate n ⟨text, .option ⟨o, spelling, none⟩⟩ ++ rest)) slots
          (List.replicate n ⟨text, .option ⟨o, spelling, none⟩⟩ ++ rest)
          ⟨[(setting, none)], [], []⟩ := by
        refine leadsOn_option (b := ⟨[], o, none⟩) rfl ?_
        simp only [noteBundle, hrole, noteFlags, List.nil_append]
        rfl
      exact hfirst.trans ih

end

end Rebuild.Proofs.LineReading
