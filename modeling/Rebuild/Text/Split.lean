namespace Rebuild.Text

/-- The pieces between separators; there is always at least one. -/
def splitChars (sep : Char) : List Char → List (List Char)
  | [] => [[]]
  | c :: cs =>
    if c = sep then [] :: splitChars sep cs
    else
      match splitChars sep cs with
      | [] => [[c]]
      | piece :: pieces => (c :: piece) :: pieces

def split (sep : Char) (s : String) : List String :=
  (splitChars sep s.toList).map .ofList

def join (sep : String) : List String → String
  | [] => ""
  | [piece] => piece
  | piece :: pieces => piece ++ sep ++ join sep pieces

def cutChars (sep : Char) : List Char → List Char × Option (List Char)
  | [] => ([], none)
  | c :: cs =>
    if c = sep then ([], some cs)
    else
      let (before, after) := cutChars sep cs
      (c :: before, after)

/-- The text before the first separator and, if there is one, the text after it. -/
def cut (sep : Char) (s : String) : String × Option String :=
  let (before, after) := cutChars sep s.toList
  (.ofList before, after.map .ofList)

theorem splitChars_ne_nil (sep : Char) (cs : List Char) : splitChars sep cs ≠ [] := by
  cases cs with
  | nil => simp [splitChars]
  | cons c cs =>
    simp only [splitChars]
    split
    · simp
    · split <;> simp

theorem split_ne_nil (sep : Char) (s : String) : split sep s ≠ [] := by
  simp [split, splitChars_ne_nil]

theorem not_mem_of_mem_splitChars {sep : Char} {cs piece : List Char}
    (h : piece ∈ splitChars sep cs) : sep ∉ piece := by
  induction cs generalizing piece with
  | nil => simp_all [splitChars]
  | cons c cs ih =>
    simp only [splitChars] at h
    split at h
    · rcases List.mem_cons.mp h with rfl | h
      · simp
      · exact ih h
    · rename_i hc
      split at h
      · simp only [List.mem_singleton] at h
        subst h
        simpa using fun heq => hc heq.symm
      · rename_i first rest hsplit
        rcases List.mem_cons.mp h with rfl | h
        · have : sep ∉ first := ih (by simp [hsplit])
          simp only [List.mem_cons, not_or]
          exact ⟨fun heq => hc heq.symm, this⟩
        · exact ih (by simp [hsplit, h])

theorem cutChars_append {sep : Char} {before : List Char} (h : sep ∉ before)
    (after : List Char) : cutChars sep (before ++ sep :: after) = (before, some after) := by
  induction before with
  | nil => simp [cutChars]
  | cons c before ih =>
    rw [List.mem_cons, not_or] at h
    have hc : ¬ c = sep := fun heq => h.1 heq.symm
    simp [cutChars, hc, ih h.2]

theorem cut_append {sep : Char} {before : String} (h : sep ∉ before.toList) (after : String) :
    cut sep (before ++ .singleton sep ++ after) = (before, some after) := by
  simp [cut, cutChars_append h]

theorem join_cons (sep piece : String) {pieces : List String} (h : pieces ≠ []) :
    join sep (piece :: pieces) = piece ++ sep ++ join sep pieces := by
  cases pieces with
  | nil => exact absurd rfl h
  | cons => rfl

theorem join_split (sep : Char) (s : String) :
    join (.singleton sep) (split sep s) = s := by
  suffices ∀ cs : List Char,
      join (.singleton sep) ((splitChars sep cs).map .ofList) = .ofList cs by
    simpa [split] using this s.toList
  intro cs
  induction cs with
  | nil => simp [splitChars, join]
  | cons c cs ih =>
    simp only [splitChars]
    split
    · rename_i hc
      rw [List.map_cons, join_cons _ _ (by simp [splitChars_ne_nil]), ih, hc]
      apply String.ext
      simp
    · split
      · rename_i hsplit
        exact absurd hsplit (splitChars_ne_nil sep cs)
      · rename_i piece pieces hsplit
        rw [hsplit] at ih
        cases pieces with
        | nil =>
          apply String.ext
          simpa [join] using congrArg String.toList ih
        | cons next pieces =>
          rw [List.map_cons, join_cons _ _ (by simp)] at ih ⊢
          apply String.ext
          simpa using congrArg String.toList ih

end Rebuild.Text
