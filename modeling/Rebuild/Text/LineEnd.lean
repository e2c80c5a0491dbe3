namespace Rebuild.Text

/-- Writes a carriage return, alone or before a line feed, as one line feed. -/
def unifyLineEndChars : List Char → List Char
  | [] => []
  | '\r' :: '\n' :: cs => '\n' :: unifyLineEndChars cs
  | c :: cs => (if c = '\r' then '\n' else c) :: unifyLineEndChars cs

def unifyLineEnds (s : String) : String :=
  .ofList (unifyLineEndChars s.toList)

theorem not_mem_unifyLineEndChars (cs : List Char) : '\r' ∉ unifyLineEndChars cs := by
  fun_induction unifyLineEndChars cs with
  | case1 => simp
  | case2 cs ih => simp [ih]
  | case3 c cs _ ih =>
    by_cases h : c = '\r'
    · simp [h, ih]
    · simp [h, ih, Ne.symm h]

theorem unifyLineEndChars_eq_self {cs : List Char} (h : '\r' ∉ cs) :
    unifyLineEndChars cs = cs := by
  fun_induction unifyLineEndChars cs with
  | case1 => rfl
  | case2 cs ih => simp at h
  | case3 c cs _ ih =>
    simp only [List.mem_cons, not_or] at h
    simp [ih h.2, Ne.symm h.1]

theorem unifyLineEnds_eq_self {s : String} (h : '\r' ∉ s.toList) : unifyLineEnds s = s := by
  simp [unifyLineEnds, unifyLineEndChars_eq_self h]

theorem unifyLineEnds_eq_self_iff {s : String} : unifyLineEnds s = s ↔ '\r' ∉ s.toList := by
  refine ⟨fun h hmem => ?_, unifyLineEnds_eq_self⟩
  rw [← h, unifyLineEnds, String.toList_ofList] at hmem
  exact not_mem_unifyLineEndChars _ hmem

end Rebuild.Text
