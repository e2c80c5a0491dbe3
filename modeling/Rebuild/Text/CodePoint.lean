namespace Rebuild

/-- A code point: a character or a surrogate. Surrogates are counted from U+D800. -/
inductive CodePoint
  | char (c : Char)
  | surrogate (n : Fin 0x800)
  deriving DecidableEq, Repr

def CodePoint.isSurrogate : CodePoint → Bool
  | char _ => false
  | surrogate _ => true

/-- A text of any code points. A surrogate in it stands alone, so the text need not be a
`String`. -/
structure CodeText where
  points : List CodePoint
  deriving DecidableEq, Repr

namespace CodeText

def ofString (s : String) : CodeText :=
  ⟨s.toList.map .char⟩

instance : Coe String CodeText := ⟨ofString⟩

instance : Append CodeText := ⟨fun s t => ⟨s.points ++ t.points⟩⟩

def join (sep : CodeText) : List CodeText → CodeText
  | [] => ⟨[]⟩
  | [piece] => piece
  | piece :: pieces => piece ++ sep ++ join sep pieces

/-- The first run of surrogates in a text: where it starts, its first, and its length. -/
structure Fault where
  start : Nat
  surrogate : Fin 0x800
  extent : Nat
  deriving DecidableEq, Repr

/-- The characters of a text that is read from a position on. -/
def charsFrom : Nat → List CodePoint → Except Fault (List Char)
  | _, [] => .ok []
  | position, .char c :: points => (charsFrom (position + 1) points).map (c :: ·)
  | position, .surrogate n :: points =>
    .error ⟨position, n, (points.takeWhile CodePoint.isSurrogate).length + 1⟩

def string (t : CodeText) : Except Fault String :=
  (charsFrom 0 t.points).map .ofList

/-- The text in UTF-8, in which surrogates have no place. -/
def encode (t : CodeText) : Except Fault ByteArray :=
  t.string.map String.toUTF8

@[simp] theorem points_ofString (s : String) : (ofString s).points = s.toList.map .char :=
  rfl

@[simp] theorem points_append (s t : CodeText) : (s ++ t).points = s.points ++ t.points :=
  rfl

theorem join_cons (sep piece : CodeText) {pieces : List CodeText} (h : pieces ≠ []) :
    join sep (piece :: pieces) = piece ++ sep ++ join sep pieces := by
  cases pieces with
  | nil => exact absurd rfl h
  | cons => rfl

@[simp] theorem charsFrom_map (position : Nat) (cs : List Char) :
    charsFrom position (cs.map .char) = .ok cs := by
  induction cs generalizing position with
  | nil => rfl
  | cons c cs ih => simp [charsFrom, ih, Except.map]

theorem charsFrom_cases (position : Nat) (points : List CodePoint) :
    (∃ cs : List Char, points = cs.map .char) ∨
      (∃ fault, charsFrom position points = .error fault) ∧ ∃ n, .surrogate n ∈ points := by
  induction points generalizing position with
  | nil => exact .inl ⟨[], rfl⟩
  | cons point points ih =>
    cases point with
    | surrogate n => exact .inr ⟨⟨_, rfl⟩, n, by simp⟩
    | char c =>
      rcases ih (position + 1) with ⟨cs, rfl⟩ | ⟨⟨fault, hfault⟩, n, hn⟩
      · exact .inl ⟨c :: cs, rfl⟩
      · exact .inr ⟨⟨fault, by simp [charsFrom, hfault, Except.map]⟩, n, by simp [hn]⟩

@[simp] theorem string_ofString (s : String) : (ofString s).string = .ok s := by
  simp [string, ofString, Except.map]

theorem string_cases (t : CodeText) :
    (∃ s, t = ofString s) ∨ (∃ fault, t.string = .error fault) ∧ ∃ n, .surrogate n ∈ t.points := by
  rcases charsFrom_cases 0 t.points with ⟨cs, hcs⟩ | ⟨⟨fault, hfault⟩, hn⟩
  · exact .inl ⟨.ofList cs, by simp [ofString, ← hcs]⟩
  · exact .inr ⟨⟨fault, by simp [string, hfault, Except.map]⟩, hn⟩

@[simp] theorem surrogate_not_mem_ofString (s : String) (n : Fin 0x800) :
    .surrogate n ∉ (ofString s).points := by
  simp

end CodeText

end Rebuild
