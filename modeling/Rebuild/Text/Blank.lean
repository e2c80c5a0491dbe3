namespace Rebuild.Text

/-- White space, the line and paragraph separators, and the four information
separators. -/
def isBlank (c : Char) : Bool :=
  let n := c.toNat
  (0x09 ≤ n && n ≤ 0x0D) || (0x1C ≤ n && n ≤ 0x20) || n == 0x85 || n == 0xA0 || n == 0x1680 ||
    (0x2000 ≤ n && n ≤ 0x200A) || n == 0x2028 || n == 0x2029 || n == 0x202F || n == 0x205F ||
    n == 0x3000

def stripEnd (cs : List Char) : List Char :=
  (cs.reverse.dropWhile isBlank).reverse

def stripChars (cs : List Char) : List Char :=
  stripEnd (cs.dropWhile isBlank)

def strip (s : String) : String :=
  .ofList (stripChars s.toList)

@[simp] theorem toList_strip (s : String) : (strip s).toList = stripChars s.toList := by
  simp [strip]

theorem dropWhile_eq_self {cs : List Char} (h : ∀ c ∈ cs.head?, isBlank c = false) :
    cs.dropWhile isBlank = cs := by
  cases cs with
  | nil => rfl
  | cons c cs => simp_all

theorem head?_dropWhile {cs : List Char} {c : Char} (h : c ∈ (cs.dropWhile isBlank).head?) :
    isBlank c = false := by
  induction cs with
  | nil => simp at h
  | cons d cs ih =>
    rw [List.dropWhile_cons] at h
    split at h
    · exact ih h
    · simp_all

theorem stripEnd_eq_self {cs : List Char} (h : ∀ c ∈ cs.getLast?, isBlank c = false) :
    stripEnd cs = cs := by
  have h' : ∀ c ∈ cs.reverse.head?, isBlank c = false := by simpa using h
  simp [stripEnd, dropWhile_eq_self h']

theorem stripEnd_append_blanks (cs : List Char) : ∃ t, cs = stripEnd cs ++ t := by
  refine ⟨(cs.reverse.takeWhile isBlank).reverse, ?_⟩
  simp only [stripEnd]
  rw [← List.reverse_append, List.takeWhile_append_dropWhile, List.reverse_reverse]

theorem stripChars_ends (cs : List Char) {c : Char} :
    (c ∈ (stripChars cs).head? → isBlank c = false) ∧
      (c ∈ (stripChars cs).getLast? → isBlank c = false) := by
  constructor
  · intro h
    obtain ⟨t, ht⟩ := stripEnd_append_blanks (cs.dropWhile isBlank)
    have h' : (stripEnd (cs.dropWhile isBlank)).head? = some c := h
    have hc : (cs.dropWhile isBlank).head? = some c := by
      rw [ht, List.head?_append, h', Option.some_or]
    exact head?_dropWhile hc
  · intro h
    simp only [stripChars, stripEnd, List.getLast?_reverse] at h
    exact head?_dropWhile h

@[simp] theorem stripChars_stripChars (cs : List Char) :
    stripChars (stripChars cs) = stripChars cs := by
  rw [stripChars, dropWhile_eq_self fun c hc => (stripChars_ends cs).1 hc]
  exact stripEnd_eq_self fun c hc => (stripChars_ends cs).2 hc

@[simp] theorem strip_strip (s : String) : strip (strip s) = strip s := by
  simp [strip]

end Rebuild.Text
